import LightServer.Retrieval.Error

/-!
# Reading one block

A block is looked for in the cache first. If it is not there, the cache is looked at a
second time for its last height, and only for a height up to that one the node is
asked. Other things may happen to the cache between the two looks, so each look is a
function of the cache that it finds, and a read is a sequence of phases.
-/

namespace LightServer.Retrieval

abbrev Item := Except Error CompactBlock

def firstLook (height : Nat) (c : Cache) : Option Item :=
  match c.get height with
  | .ok none => none
  | .ok (some b) => some (.ok b)
  | .error e => some (.error (.cache e))

/-- The last height of the cache, if the node may be asked for the given height. -/
def secondLook (height : Nat) (c : Cache) : Except Error Nat :=
  match c.latestHeight with
  | none => .error .notReady
  | some tip => if height ≤ tip then .ok tip else .error (.newerThanTip height tip)

def settle (height : Nat) : Except Node.SourceError (Option CompactBlock) → Item
  | .ok (some b) => .ok b
  | .ok none => .error (.notFound height)
  | .error e => .error (.source height e)

inductive ReadPhase where
  | looking
  | checking
  | asking
  | done (item : Item)

def ReadPhase.look (height : Nat) (c : Cache) : ReadPhase → ReadPhase
  | looking =>
      match firstLook height c with
      | some item => done item
      | none => checking
  | checking =>
      match secondLook height c with
      | .ok _ => asking
      | .error e => done (.error e)
  | asking => asking
  | done item => done item

def ReadPhase.lookTwice (height : Nat) (c : Cache) : ReadPhase :=
  (looking.look height c).look height c

end LightServer.Retrieval
