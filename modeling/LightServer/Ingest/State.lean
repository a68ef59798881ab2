import LightServer.Ingest.Config

/-!
# The state of the ingestor

Between two blocks the ingestor remembers the height that it asks for next, how many
reorgs it has met since a block was last stored, how many failures it has not yet
forgiven, and whether a rewind is due.
-/

namespace LightServer.Ingest

structure State where
  height : Nat
  reorgCount : Nat
  failureCount : Nat
  rewindPending : Bool
  deriving DecidableEq, Repr

namespace State

def start (height : Nat) : State := ⟨height, 0, 0, false⟩

/-- A block was stored: go on to the next height and forgive one failure. -/
def stored (s : State) : State := ⟨s.height + 1, 0, s.failureCount - 1, false⟩

def reorg (s : State) : State := { s with reorgCount := s.reorgCount + 1, rewindPending := true }

def failure (s : State) : State := { s with failureCount := s.failureCount + 1 }

/-- Goes back by a number of heights if a rewind is due, and not below zero. -/
def rewind (step : Nat) (s : State) : State :=
  if s.rewindPending then { s with height := s.height - step, rewindPending := false } else s

def ReorgBounded (limit : Nat) (s : State) : Prop := s.reorgCount ≤ limit

instance (limit : Nat) (s : State) : Decidable (s.ReorgBounded limit) :=
  inferInstanceAs (Decidable (s.reorgCount ≤ limit))

def toJson (s : State) : Json :=
  Json.ofMembers [("height", .nat s.height), ("reorg_count", .nat s.reorgCount),
    ("failure_count", .nat s.failureCount), ("rewind_pending", .bool s.rewindPending)]

theorem rewind_of_not_pending {s : State} (h : s.rewindPending = false) (step : Nat) :
    s.rewind step = s := by
  simp [rewind, h]

end State

end LightServer.Ingest
