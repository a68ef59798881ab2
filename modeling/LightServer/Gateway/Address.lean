import LightServer.Gateway.Error

/-!
# Transparent addresses

Whether a text looks like a transparent address is checked before the node is asked
about it. The checksum inside an address is left to the node.
-/

namespace LightServer.Gateway

def addressLength : Nat := 35

/-- The text begins with a `t`, has the length of an address, and is made of letters and
digits. -/
def LooksTransparent (s : String) : Prop :=
  s.utf8ByteSize = addressLength ∧ s.toList.head? = some 't' ∧ s.toList.all Char.isAlphanum

instance (s : String) : Decidable (LooksTransparent s) := by
  unfold LooksTransparent
  infer_instance

/-- Accepts what looks like a transparent address. -/
def validateAddress (s : String) : Except ApiError Unit :=
  if LooksTransparent s then .ok ()
  else .error (.invalidParams ("invalid transparent address: " ++ s))

end LightServer.Gateway
