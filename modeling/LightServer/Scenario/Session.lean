import LightServer.Backend.Ingest
import LightServer.Backend.Retrieval
import LightServer.Cache.Config
import LightServer.Gateway.Setup
import LightServer.Scenario.Script

/-!
# Sessions

A session is a server over a scripted node, in a time of its own. Its parts are driven
one at a time: blocks are put into the cache or asked for, the ingestor does rounds, and
wallets send requests. After each of them the session can be looked at.
-/

namespace LightServer.Scenario

structure Ingestor where
  config : Ingest.Config
  state : Ingest.State
  deriving DecidableEq, Repr

structure Session where
  backend : Backend Script
  ingestor : Option Ingestor
  stopped : Bool
  retrieval : Retrieval.Config
  gateway : Gateway.Config

structure View where
  window : Option (Nat × Nat)
  size : Nat
  ingestor : Option Ingest.State
  fetched : List Nat
  calls : List (String × List Json)

inductive Action where
  | extendNode (blocks : List CompactBlock)
  | truncateNode (height : Nat)
  | failNode (height : Nat) (times : Option Nat)
  | delayNode (height delay : Nat)
  | add (height : Nat) (block : CompactBlock)
  | cached (height : Nat)
  | cacheInfo

inductive ActionResult where
  | done
  | tip (height : Option Nat)
  | added (outcome : Except CacheError AddOutcome)
  | block (found : Except CacheError (Option CompactBlock))
  | info (latest : Option Nat) (capacity : Nat) (empty : Bool)

abbrev Stage := Backend Script

namespace Stage

def start (codec : EntryCodec) (maxEntries : Nat) (source : BlockSource) : Stage where
  world := .empty source
  cache := .empty codec maxEntries
  metrics := {}
  now := 0

def changeNode (f : Script → Script) (s : Stage) : Stage := { s with world := f s.world }

/-- What is seen of a backend with an ingestor in a state. The fetches and calls are
shown once. -/
def view (ingestor : Option Ingest.State) (s : Stage) : View × Stage :=
  ({ window := s.cache.bounds
     size := s.cache.size
     ingestor := ingestor
     fetched := s.world.fetched
     calls := s.world.calls }, s.changeNode Script.forget)

def act (a : Action) (s : Stage) : ActionResult × Stage :=
  match a with
  | .extendNode bs =>
      let s := s.changeNode (Script.extend bs)
      (.tip s.world.tip?, s)
  | .truncateNode height =>
      let s := s.changeNode (Script.truncate height)
      (.tip s.world.tip?, s)
  | .failNode height times => (.done, s.changeNode (Script.failAt height times))
  | .delayNode height delay => (.done, s.changeNode (Script.delayAt height delay))
  | .add height b =>
      let (outcome, s) := s.addBlock height b
      (.added outcome, s)
  | .cached height => (.block (s.cache.get height), s)
  | .cacheInfo => (.info s.cache.latestHeight s.cache.capacity (s.cache.size = 0), s)

end Stage

namespace Session

def withStage (b : Stage) (s : Session) : Session := { s with backend := b }

def onStage {α : Type} (f : Stage → α × Stage) (s : Session) : α × Session :=
  let (a, b) := f s.backend
  (a, s.withStage b)

def view (s : Session) : View × Session := s.onStage (Stage.view (s.ingestor.map Ingestor.state))

def setup (s : Session) : Gateway.Setup Script := ⟨Script.access, s.gateway, s.retrieval⟩

end Session

end LightServer.Scenario
