import LightServer.Backend.Basic
import LightServer.Proofs.Ingest.Turns
import LightServer.Server.Assembly

/-!
# Rounds over a fixed source

A source whose answers depend on the height alone leaves a round nothing to
remember but the cache, so `fixedSource` is an environment whose world is a
cache. An environment `Feeds` the cache that is seen in its world when it does
to that cache what the plain one does, and then its rounds are those of the
plain one, seen through the cache. The assembled server is such an environment
for every node whose answers depend on the height alone.
-/

namespace LightServer.Ingest

/-- The environment of an ingestor that is never told to stop, with a source whose answers
depend on the height alone. Its world is the cache. -/
def fixedSource (source : Nat → FetchReply) : Environment Cache where
  stopped _ := false
  fetch height w := (source height, w)
  add height b w := w.add height b
  count _ w := w

/-- The environment feeds the cache that is seen in its world: offers go to it, and nothing
else touches it. -/
structure Environment.Feeds {ω : Type} (env : Environment ω) (cache : ω → Cache) : Prop where
  fetch : ∀ height w, cache (env.fetch height w).2 = cache w
  add_outcome : ∀ height b w, (env.add height b w).1 = ((cache w).add height b).1
  add_cache : ∀ height b w, cache (env.add height b w).2 = ((cache w).add height b).2
  count : ∀ e w, cache (env.count e w) = cache w

/-- The environment never tells the ingestor to stop, and fetches give what the source has. -/
structure Environment.Serves {ω : Type} (env : Environment ω) (source : Nat → FetchReply) :
    Prop where
  running : ∀ w, env.stopped w = false
  fetch : ∀ height w, (env.fetch height w).1 = source height

section Turn

variable {c : Config} {source : Nat → FetchReply} {s : State} {w w' : Cache} {x k f : Nat}
  {b : CompactBlock}

theorem fetchAndAdd_of_none (h : source s.height = .ok none) :
    fetchAndAdd c (fixedSource source) s w = (.finished (.ok .caughtUp) s, w) := by
  simp only [fetchAndAdd, fixedSource, h]

theorem fetchAndAdd_of_error {e : Node.SourceError} (h : source s.height = .error e) :
    fetchAndAdd c (fixedSource source) s w = (afterFailure c s, w) := by
  simp only [fetchAndAdd, fixedSource, h]

theorem fetchAndAdd_of_block (h : source s.height = .ok (some b)) :
    fetchAndAdd c (fixedSource source) s w =
      ((afterAdd c s (w.add s.height b).1).1, (w.add s.height b).2) := by
  have hcount : ∀ e k, (fixedSource source).countSome e k = k := by
    intro e k
    cases e <;> rfl
  simp only [fetchAndAdd, hcount]
  simp only [fixedSource, h]

theorem turn_of_asks (hs : s.Asks c.rewindStep x k f) (hk : k ≤ c.maxReorgRounds) :
    turn c (fixedSource source) s w = fetchAndAdd c (fixedSource source) ⟨x, k, f, false⟩ w := by
  rw [turn_eq_of_asks rfl hs, if_pos hk]

theorem ends_of_none (hs : s.Asks c.rewindStep x k f) (hk : k ≤ c.maxReorgRounds)
    (hx : source x = .ok none) :
    Ends c (fixedSource source) s w (.ok .caughtUp, ⟨x, k, f, false⟩, w) :=
  ends_of_turn ((turn_of_asks hs hk).trans (fetchAndAdd_of_none hx))

theorem leads_of_stored {evicted : Option Nat} (hs : s.Asks c.rewindStep x k f)
    (hk : k ≤ c.maxReorgRounds) (hx : source x = .ok (some b))
    (hadd : w.add x b = (.ok (.stored evicted), w')) :
    Leads c (fixedSource source) 1 s w (State.stored ⟨x, k, f, false⟩) w' := by
  apply leads_of_turn
  rw [turn_of_asks hs hk, fetchAndAdd_of_block hx, hadd]
  rfl

theorem leads_of_reorg (hs : s.Asks c.rewindStep x k f) (hk : k ≤ c.maxReorgRounds)
    (hx : source x = .ok (some b)) (hadd : w.add x b = (.ok .reorgDetected, w')) :
    Leads c (fixedSource source) 1 s w (State.reorg ⟨x, k, f, false⟩) w' := by
  apply leads_of_turn
  rw [turn_of_asks hs hk, fetchAndAdd_of_block hx, hadd]
  rfl

theorem ends_of_tooDeep (hs : s.Asks c.rewindStep x k f) (hk : c.maxReorgRounds < k) :
    Ends c (fixedSource source) s w (.error (.reorgTooDeep k x), ⟨x, k, f, false⟩, w) := by
  apply ends_of_turn
  rw [turn_eq_of_asks rfl hs, if_neg (Nat.not_le.mpr hk)]

theorem afterFailure_eq (c : Config) (x k f : Nat) :
    afterFailure c ⟨x, k, f, false⟩ =
      if c.maxFailures ≤ f + 1 then .finished (.ok .abandoned) ⟨x, k, 0, false⟩
      else .goOn (State.failure ⟨x, k, f, false⟩) := rfl

theorem ends_of_error_of_limit {e : Node.SourceError} (hs : s.Asks c.rewindStep x k f)
    (hk : k ≤ c.maxReorgRounds) (hx : source x = .error e) (hlimit : c.maxFailures ≤ f + 1) :
    Ends c (fixedSource source) s w (.ok .abandoned, ⟨x, k, 0, false⟩, w) := by
  apply ends_of_turn
  rw [turn_of_asks hs hk, fetchAndAdd_of_error hx, afterFailure_eq, if_pos hlimit]

theorem leads_of_error {e : Node.SourceError} (hs : s.Asks c.rewindStep x k f)
    (hk : k ≤ c.maxReorgRounds) (hx : source x = .error e) (hlimit : ¬ c.maxFailures ≤ f + 1) :
    Leads c (fixedSource source) 1 s w (State.failure ⟨x, k, f, false⟩) w := by
  apply leads_of_turn
  rw [turn_of_asks hs hk, fetchAndAdd_of_error hx, afterFailure_eq, if_neg hlimit]

/-- A height at which every fetch fails uses up the failures of the round. -/
theorem ends_of_error {e : Node.SourceError} (hs : s.Asks c.rewindStep x k f)
    (hk : k ≤ c.maxReorgRounds) (hx : source x = .error e) :
    Ends c (fixedSource source) s w (.ok .abandoned, ⟨x, k, 0, false⟩, w) := by
  induction hleft : c.maxFailures - (f + 1) generalizing s f with
  | zero => exact ends_of_error_of_limit hs hk hx (by omega)
  | succ n ih =>
      have hgoOn := leads_of_error (w := w) hs hk hx (by omega)
      exact hgoOn.ends (ih (State.asks_failure _ x k f) (by omega))

end Turn

section Projection

variable {ω : Type} {c : Config} {env : Environment ω} {cache : ω → Cache}
  {source : Nat → FetchReply}

theorem cache_countSome (hfeeds : env.Feeds cache) (e : Option Event) (w : ω) :
    cache (env.countSome e w) = cache w := by
  cases e with
  | none => rfl
  | some e => exact hfeeds.count e w

theorem fetchAndAdd_fixedSource (hfeeds : env.Feeds cache) (hserves : env.Serves source)
    (s : State) (w : ω) :
    fetchAndAdd c (fixedSource source) s (cache w) =
      ((fetchAndAdd c env s w).1, cache (fetchAndAdd c env s w).2) := by
  have hcache := hfeeds.fetch s.height w
  have hfetch : env.fetch s.height w = (source s.height, (env.fetch s.height w).2) :=
    Prod.ext (hserves.fetch s.height w) rfl
  generalize (env.fetch s.height w).2 = w₁ at hcache hfetch
  cases hs : source s.height with
  | error e =>
      rw [fetchAndAdd_of_error hs]
      simp only [fetchAndAdd, hfetch, hs, hfeeds.count, hcache]
  | ok found =>
      cases found with
      | none =>
          rw [fetchAndAdd_of_none hs]
          simp only [fetchAndAdd, hfetch, hs, hcache]
      | some b =>
          rw [fetchAndAdd_of_block hs]
          simp only [fetchAndAdd, hfetch, hs, cache_countSome hfeeds, hfeeds.add_outcome,
            hfeeds.add_cache, hcache]

theorem turn_fixedSource (hfeeds : env.Feeds cache) (hserves : env.Serves source)
    (s : State) (w : ω) :
    turn c (fixedSource source) s (cache w) = ((turn c env s w).1, cache (turn c env s w).2) := by
  have hrun : (fixedSource source).stopped (cache w) = false := rfl
  simp only [turn, hserves.running w, hrun, Bool.false_eq_true, if_false]
  split
  · exact fetchAndAdd_fixedSource hfeeds hserves _ w
  · rfl

/-- A round over a source, seen through the cache. -/
theorem pollRound_fixedSource (hfeeds : env.Feeds cache) (hserves : env.Serves source)
    (fuel : Nat) (s : State) (w : ω) :
    pollRound c (fixedSource source) fuel s (cache w) =
      (pollRound c env fuel s w).map fun r => (r.1, r.2.1, cache r.2.2) := by
  induction fuel generalizing s w with
  | zero => rfl
  | succ fuel ih =>
      unfold pollRound
      rw [turn_fixedSource hfeeds hserves]
      generalize turn c env s w = r
      obtain ⟨t, w₁⟩ := r
      cases t with
      | goOn s₁ => exact ih s₁ w₁
      | finished result s₁ => rfl

/-- A round ends over a source as the plain one ends on the cache that is seen. -/
theorem ends_iff_fixedSource (hfeeds : env.Feeds cache) (hserves : env.Serves source)
    {result : Except Error Outcome} {s s' : State} {w : ω} {k : Cache} :
    Ends c (fixedSource source) s (cache w) (result, s', k) ↔
      ∃ w', cache w' = k ∧ Ends c env s w (result, s', w') := by
  constructor
  · rintro ⟨fuel, hfuel⟩
    rw [pollRound_fixedSource hfeeds hserves, Option.map_eq_some_iff] at hfuel
    obtain ⟨⟨result', s₁, w₁⟩, hres, heq⟩ := hfuel
    cases heq
    exact ⟨w₁, rfl, fuel, hres⟩
  · rintro ⟨w', rfl, fuel, hfuel⟩
    refine ⟨fuel, ?_⟩
    rw [pollRound_fixedSource hfeeds hserves, hfuel]
    rfl

theorem pollRound_eq_none_iff_fixedSource (hfeeds : env.Feeds cache)
    (hserves : env.Serves source) {fuel : Nat} {s : State} {w : ω} :
    pollRound c (fixedSource source) fuel s (cache w) = none ↔
      pollRound c env fuel s w = none := by
  rw [pollRound_fixedSource hfeeds hserves, Option.map_eq_none_iff]

end Projection

end LightServer.Ingest

namespace LightServer

variable {ν : Type}

/-- The node answers every fetch with what the source has at the height, whenever it is asked
and however long that takes. -/
def NodeAccess.Answers (p : NodeAccess ν) (source : Nat → FetchReply) : Prop :=
  ∀ height (s : Backend ν), (s.fetch p height).1 = source height

def NodeAccess.ofSource (source : Nat → FetchReply) : NodeAccess Unit where
  call _ _ w := ((0, .error (.transport "no calls")), w)
  fetch height w := ((0, fun w => ((0, source height), w)), w)

theorem NodeAccess.answers_ofSource (source : Nat → FetchReply) :
    (NodeAccess.ofSource source).Answers source := fun _ _ => rfl

theorem Backend.cache_countIngest (e : Ingest.Event) (s : Backend ν) :
    (s.countIngest e).cache = s.cache := by
  cases e <;> rfl

namespace Server.Assembly

/-- The assembled server feeds the cache of its backend. -/
theorem feeds_catchUpEnvironment (p : NodeAccess ν) :
    (catchUpEnvironment p).Feeds fun w => w.backend.cache where
  fetch _ _ := rfl
  add_outcome _ _ _ := rfl
  add_cache _ _ _ := rfl
  count e w := w.backend.cache_countIngest e

theorem serves_catchUpEnvironment {p : NodeAccess ν} {source : Nat → FetchReply}
    (hp : p.Answers source) : (catchUpEnvironment p).Serves source where
  running _ := rfl
  fetch height w := hp height w.backend

section Turn

open Ingest

variable {p : NodeAccess ν} {c : Ingest.Config} {s : State} {v : CatchUp ν} {x k f : Nat}
  {b : CompactBlock} {outcome : Except CacheError AddOutcome} {w' : Cache}

theorem world_countSome (p : NodeAccess ν) (e : Option Event) (v : CatchUp ν) :
    ((catchUpEnvironment p).countSome e v).backend.world = v.backend.world := by
  cases e with
  | none => rfl
  | some e => cases e <;> rfl

/-- A turn that fetches a block does what the offer of that block comes to. -/
theorem exists_turn_of_add (hs : s.Asks c.rewindStep x k f) (hk : k ≤ c.maxReorgRounds)
    (hfetch : (v.backend.fetch p x).1 = .ok (some b))
    (hadd : v.backend.cache.add x b = (outcome, w')) :
    ∃ v', turn c (catchUpEnvironment p) s v = ((afterAdd c ⟨x, k, f, false⟩ outcome).1, v') ∧
      v'.backend.cache = w' ∧ v'.backend.world = (v.backend.fetch p x).2.world := by
  let v₁ := ((catchUpEnvironment p).fetch x v).2
  have hfetched : (catchUpEnvironment p).fetch x v = (.ok (some b), v₁) := Prod.ext hfetch rfl
  let v₂ := ((catchUpEnvironment p).add x b v₁).2
  have hadded : (catchUpEnvironment p).add x b v₁ = (outcome, v₂) :=
    Prod.ext (((feeds_catchUpEnvironment p).add_outcome x b v₁).trans (congrArg Prod.fst hadd)) rfl
  refine ⟨(catchUpEnvironment p).countSome (afterAdd c ⟨x, k, f, false⟩ outcome).2 v₂, ?_, ?_, ?_⟩
  · rw [turn_eq_of_asks rfl hs, if_pos hk]
    simp only [fetchAndAdd, hfetched, hadded]
  · rw [cache_countSome (feeds_catchUpEnvironment p)]
    exact congrArg Prod.snd hadd
  · exact world_countSome p _ v₂

end Turn

end Server.Assembly

end LightServer
