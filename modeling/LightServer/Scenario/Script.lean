import Std.Data.ExtTreeMap
import LightServer.Backend.Basic

/-!
# Scripted nodes

A scripted node serves blocks from a map and fails or delays fetches of some heights as it
is told. Calls of methods are answered from a queue of prepared replies, and blocks can
be had by such calls too. The node remembers what it was asked for.
-/

namespace LightServer.Scenario

inductive BlockSource where
  | map
  | calls
  deriving DecidableEq, Repr

structure PreparedReply where
  delay : Nat
  reply : Node.Reply

/-- A scripted node. The fetches and calls since the last look at them are kept apart
from all the fetches that the map has served. -/
structure Script where
  source : BlockSource
  blocks : Std.ExtTreeMap Nat CompactBlock
  failures : List (Nat × Option Nat)
  delays : List (Nat × Nat)
  replies : List PreparedReply
  fetched : List Nat
  calls : List (String × List Json)
  served : List Nat

namespace Script

def empty (source : BlockSource) : Script where
  source := source
  blocks := ∅
  failures := []
  delays := []
  replies := []
  fetched := []
  calls := []
  served := []

def tip? (n : Script) : Option Nat := n.blocks.maxKey?

def extend (bs : List CompactBlock) (n : Script) : Script :=
  { n with blocks := bs.foldl (fun m b => m.insert b.height.toNat b) n.blocks }

def truncate (height : Nat) (n : Script) : Script :=
  { n with blocks := n.blocks.filter fun h _ => h < height }

def failAt (height : Nat) (times : Option Nat) (n : Script) : Script :=
  { n with failures := (height, times) :: n.failures.filter (·.1 ≠ height) }

def delayAt (height delay : Nat) (n : Script) : Script :=
  { n with delays := (height, delay) :: n.delays.filter (·.1 ≠ height) }

def prepare (r : PreparedReply) (n : Script) : Script := { n with replies := n.replies ++ [r] }

def delayOf (height : Nat) (n : Script) : Nat := (n.delays.lookup height).getD 0

def failure (height : Nat) : Node.SourceError :=
  .transport ("mock failure at height " ++ Text.decimal height)

def serve (height : Nat) (n : Script) : FetchReply × Script :=
  let n := { n with served := n.served ++ [height] }
  match n.failures.lookup height with
  | some none => (.error (failure height), n)
  | some (some (times + 1)) => (.error (failure height), n.failAt height (some times))
  | some (some 0) | none => (.ok n.blocks[height]?, n)

def call (method : String) (params : List Json) (n : Script) : Delayed Node.Reply × Script :=
  let n := { n with calls := n.calls ++ [(method, params)] }
  match n.replies with
  | [] => ((0, .error (.transport ("no scripted response for " ++ method))), n)
  | r :: rest => ((r.delay, r.reply), { n with replies := rest })

def ask (height : Nat) (n : Script) : Delayed FetchReply × Script :=
  match n.source with
  | .map =>
      let (reply, n) := serve height n
      ((0, reply), n)
  | .calls => NodeAccess.askBlock call height n

def fetch (height : Nat) (n : Script) : Delayed (Script → Delayed FetchReply × Script) × Script :=
  ((n.delayOf height, ask height), { n with fetched := n.fetched ++ [height] })

def access : NodeAccess Script := ⟨call, fetch⟩

def forget (n : Script) : Script := { n with fetched := [], calls := [] }

end Script

end LightServer.Scenario
