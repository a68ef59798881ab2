import LightServer.Scenario.Session

/-!
# The ingestor in time

While the ingestor waits, for the node or for its next round, other things happen at
planned moments: something is done to the server, the ingestor is told to stop, or the
one who could tell it so leaves. What is planned is worked off up to the end of each
wait. An ingestor that is told to stop ends with its present turn. One that is left
alone ends its round and stops when it waits for the next one.
-/

namespace LightServer.Scenario

inductive Happening where
  | act (a : Action)
  | signal
  | leave

structure Observation where
  before : View
  result : ActionResult

/-- The ingestor's world in time: whether it is told to stop or left alone, the number of
its fetches and the one at whose beginning it is told to stop, and what is planned. -/
structure Timeline where
  stage : Stage
  stopped : Bool
  alone : Bool
  fetches : Nat
  stopAfter : Option Nat
  plan : List (Nat × Happening)
  seen : List Observation

namespace Timeline

def start (s : Stage) (stopped : Bool) (stopAfter : Option Nat)
    (plan : List (Nat × Happening)) : Timeline :=
  ⟨s, stopped, false, 0, stopAfter, plan, []⟩

def happen (h : Happening) (t : Timeline) : Timeline :=
  match h with
  | .signal => { t with stopped := true }
  | .leave => { t with alone := true }
  | .act a =>
      let (before, s) := t.stage.view none
      let (result, s) := s.act a
      { t with stage := s, seen := t.seen ++ [⟨before, result⟩] }

def workOff (moment : Nat) : List (Nat × Happening) → Timeline → Timeline
  | [], t => { t with stage := t.stage.waitUntil moment, plan := [] }
  | (time, h) :: rest, t =>
      if time ≤ moment then
        workOff moment rest ({ t with stage := t.stage.waitUntil time }.happen h)
      else { t with stage := t.stage.waitUntil moment, plan := (time, h) :: rest }

def advance (moment : Nat) (t : Timeline) : Timeline := workOff moment t.plan t

def endOfPlan? : List (Nat × Happening) → Option Nat
  | [] => none
  | (_, .act _) :: rest => endOfPlan? rest
  | (time, _) :: _ => some time

def endFetch (f : Fetch Script) (t : Timeline) : FetchReply × Timeline :=
  let t := t.advance f.ready
  match f with
  | .asked _ reply => (reply, t)
  | .waiting _ ask =>
      let ((ready, reply), s) := t.stage.askNode ask
      (reply, { t with stage := s }.advance ready)

def fetch (height : Nat) (t : Timeline) : FetchReply × Timeline :=
  let fetches := t.fetches + 1
  let (f, s) := t.stage.beginFetch Script.access height
  { t with
    stage := s
    fetches := fetches
    stopped := t.stopped || t.stopAfter == some fetches }.endFetch f

def add (height : Nat) (b : CompactBlock) (t : Timeline) :
    Except CacheError AddOutcome × Timeline :=
  let (outcome, s) := t.stage.addBlock height b
  (outcome, { t with stage := s })

def environment : Ingest.Environment Timeline where
  stopped := Timeline.stopped
  fetch := fetch
  add := add
  count e t := { t with stage := t.stage.countIngest e }

def wait (interval : Nat) (t : Timeline) : Bool × Timeline :=
  let wake := t.stage.now + interval
  if t.stopped || t.alone then (false, t)
  else
    match endOfPlan? t.plan with
    | none => (true, t.advance wake)
    | some stop => if stop ≤ wake then (false, t.advance stop) else (true, t.advance wake)

/-- A number of turns that no round reaches. -/
def maxTurns : Nat := 1000000000000

def horizon (plan : List (Nat × Happening)) : Nat := plan.foldl (fun m h => max m h.1) 0

end Timeline

namespace Session

/-- Does one round, in which the ingestor is told to stop at the beginning of a fetch. -/
def poll (stopAfter : Option Nat) (s : Session) :
    Option (Except Ingest.Error Ingest.Outcome × Session) := do
  let i ← s.ingestor
  let (result, state, t) ← Ingest.pollRound i.config Timeline.environment Timeline.maxTurns i.state
    (.start s.backend s.stopped stopAfter [])
  return (result, { s with
    backend := t.stage
    stopped := t.stopped
    ingestor := some { i with state } })

/-- What is seen of an ingestor that runs: what was seen while it ran, whether it was over
before its end, and how it ended. -/
structure RunReport where
  seen : List Observation
  finished : Bool
  result : Except Ingest.Error Unit

/-- Runs the ingestor, which is used up by that, while other things happen. -/
def run (plan : List (Nat × Happening)) (s : Session) : Option (RunReport × Session) := do
  let i ← s.ingestor
  let plan := plan.map fun h => (s.backend.now + h.1, h.2)
  let (result, t) ← Ingest.run i.config Timeline.environment
    (Timeline.wait i.config.pollInterval.ceilMillis) Timeline.maxTurns
    (Timeline.horizon plan + 2) i.state (.start s.backend false none plan)
  let finished := !(t.stopped || t.alone)
  let t := t.advance (max t.stage.now (Timeline.horizon plan))
  return (⟨t.seen, finished, result⟩, { s with backend := t.stage, ingestor := none })

end Session

end LightServer.Scenario
