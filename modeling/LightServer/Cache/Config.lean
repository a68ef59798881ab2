import LightServer.Json.Basic

/-!
# Settings of the cache
-/

namespace LightServer.Cache

structure Config where
  maxEntries : Nat
  deriving DecidableEq, Repr

namespace Config

/-- Room for about a month of blocks. -/
def default : Config := ⟨40000⟩

def forTesting : Config := ⟨3⟩

def validate (c : Config) : Except String Unit :=
  if c.maxEntries = 0 then .error "max_entries must be at least 1" else .ok ()

def toJson (c : Config) : Json := Json.ofMembers [("max_entries", .nat c.maxEntries)]

end Config

end LightServer.Cache
