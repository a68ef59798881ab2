import LightServer.Bytes.Octets

/-!
# Compact blocks

A compact block is a block reduced to what a light wallet needs: its place in
the chain, given by its own hash and that of its parent, and the shielded parts
of its transactions. Fields that a binary format fixes at 32 or 64 bits are words
of that size.
-/

namespace LightServer

/-- The parts of a shielded output that a trial decryption needs. -/
structure CompactOutput where
  commitment : Hash
  ephemeralKey : Hash
  ciphertext : Bytes
  deriving DecidableEq, Inhabited

/-- The shielded parts of a transaction, with its position in the block. The
spends are given by the nullifiers that they reveal. -/
structure CompactTx where
  index : UInt64
  hash : Hash
  fee : UInt32
  spends : List Hash
  outputs : List CompactOutput
  deriving DecidableEq, Inhabited

structure CompactBlock where
  version : UInt32
  height : UInt64
  hash : Hash
  prevHash : Hash
  time : UInt32
  header : Bytes
  transactions : List CompactTx
  deriving DecidableEq, Inhabited

namespace CompactBlock

def currentVersion : UInt32 := 1

/-- The number of bytes that are kept of the ciphertext of a note. -/
def noteSize : Nat := 52

def Extends (b : CompactBlock) (parent : Hash) : Prop := b.prevHash = parent

instance (b : CompactBlock) (parent : Hash) : Decidable (b.Extends parent) :=
  inferInstanceAs (Decidable (b.prevHash = parent))

def Linked (bs : List CompactBlock) : Prop :=
  ∀ (i : Nat) (a b : CompactBlock), bs[i]? = some a → bs[i + 1]? = some b → b.Extends a.hash

theorem linked_nil : Linked [] := by
  intro i a b ha
  simp at ha

theorem linked_singleton (a : CompactBlock) : Linked [a] := by
  intro i x y _ hy
  simp at hy

end CompactBlock

end LightServer
