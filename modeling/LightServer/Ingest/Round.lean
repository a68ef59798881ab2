import LightServer.Cache.Basic
import LightServer.Node.Error
import LightServer.Ingest.State

/-!
# Poll rounds

A round fetches block after block and offers each one to the cache, until the node
has no more blocks, too many failures have come together, or the ingestor is told to
stop. A reorg sends it back by a number of heights, and more reorgs in a row than are
tolerated stop it for good. What surrounds a round is an environment over an arbitrary
world, so a law of rounds holds for every source of blocks and every cache.
-/

namespace LightServer.Ingest

inductive Event where
  | stored (height : Nat)
  | reorgDetected
  | fetchFailed
  | encodingFailed
  deriving DecidableEq, Repr

/-- What surrounds an ingestor: whether it is told to stop, the source of blocks, the
cache, and the counters. -/
structure Environment (ω : Type) where
  stopped : ω → Bool
  fetch : Nat → ω → Except Node.SourceError (Option CompactBlock) × ω
  add : Nat → CompactBlock → ω → Except CacheError AddOutcome × ω
  count : Event → ω → ω

inductive Outcome where
  | caughtUp
  | abandoned
  | stopped
  deriving DecidableEq, Repr

inductive Turn where
  | goOn (s : State)
  | finished (result : Except Error Outcome) (s : State)

/-- The state after a failure: the round goes on until the failures reach their limit,
and then the count starts over. -/
def afterFailure (c : Config) (s : State) : Turn :=
  if c.maxFailures ≤ s.failure.failureCount then
    .finished (.ok .abandoned) { s.failure with failureCount := 0 }
  else .goOn s.failure

def afterAdd (c : Config) (s : State) : Except CacheError AddOutcome → Turn × Option Event
  | .ok (.stored _) => (.goOn s.stored, some (.stored s.height))
  | .ok .reorgDetected => (.goOn s.reorg, some .reorgDetected)
  | .error (.heightGap expected _) => (.goOn { s with height := expected }, none)
  | .error (.encoding _ _) => (afterFailure c s, some .encodingFailed)

def Environment.countSome {ω : Type} (env : Environment ω) (e : Option Event) (w : ω) : ω :=
  match e with
  | none => w
  | some e => env.count e w

def fetchAndAdd {ω : Type} (c : Config) (env : Environment ω) (s : State) (w : ω) : Turn × ω :=
  match env.fetch s.height w with
  | (.ok none, w) => (.finished (.ok .caughtUp) s, w)
  | (.error _, w) => (afterFailure c s, env.count .fetchFailed w)
  | (.ok (some b), w) =>
      let (outcome, w) := env.add s.height b w
      let (turn, event) := afterAdd c s outcome
      (turn, env.countSome event w)

/-- One turn of the loop: a rewind if one is due, the check of the reorgs in a row, and
the next block. -/
def turn {ω : Type} (c : Config) (env : Environment ω) (s : State) (w : ω) : Turn × ω :=
  if env.stopped w then (.finished (.ok .stopped) s, w)
  else
    let s := s.rewind c.rewindStep
    if s.ReorgBounded c.maxReorgRounds then fetchAndAdd c env s w
    else (.finished (.error (.reorgTooDeep s.reorgCount s.height)) s, w)

/-- A round of at most `fuel` turns. A round that is not over by then has no result. -/
def pollRound {ω : Type} (c : Config) (env : Environment ω) :
    Nat → State → ω → Option (Except Error Outcome × State × ω)
  | 0, _, _ => none
  | fuel + 1, s, w =>
      match turn c env s w with
      | (.finished result s, w) => some (result, s, w)
      | (.goOn s, w) => pollRound c env fuel s w

/-- More fuel does not change the result of a round. -/
theorem pollRound_mono {ω : Type} {c : Config} {env : Environment ω} {fuel more : Nat} {s : State}
    {w : ω} {r : Except Error Outcome × State × ω} (h : pollRound c env fuel s w = some r)
    (hle : fuel ≤ more) : pollRound c env more s w = some r := by
  induction fuel generalizing s w more with
  | zero => simp [pollRound] at h
  | succ fuel ih =>
      obtain ⟨k, rfl⟩ : ∃ k, more = k + 1 := ⟨more - 1, by omega⟩
      unfold pollRound at h ⊢
      split at h
      · exact h
      · exact ih h (by omega)

end LightServer.Ingest
