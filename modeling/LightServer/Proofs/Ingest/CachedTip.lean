import LightServer.Proofs.Ingest.StartHeight
import LightServer.Proofs.Number.Whole

/-!
# The gauge of the cached tip

The gauge is set to the height of each block that is stored, and by nothing else. The
tip of the cache moves on reorgs too, because an offer at a cached height takes away
what is cached there and above before the parents are compared. Of the reorgs between
two stored blocks the first is found one above the tip, where there is nothing to take
away, and each further one at the tip or below. So the gauge shows the tip exactly as
long as at most one reorg was found since a block was stored.
-/

namespace LightServer

def Backend.ShowsTip {ν : Type} (s : Backend ν) : Prop :=
  ∃ tip, s.cache.latestHeight = some tip ∧ s.metrics.cachedTip.IsNat tip

namespace Ingest

open Cache

def Call.storedHeight? : Call → Option Nat
  | offered height (.ok (.stored _)) => some height
  | _ => none

def lastStored? (calls : List Call) : Option Nat :=
  (calls.filterMap Call.storedHeight?).getLast?

/-- The ingestor alone sets the gauge of the cached tip. -/
structure SoleGauger {ω ν : Type} (env : Environment ω) (backend : ω → Backend ν)
    (rests : ω → ω → Prop) : Prop where
  fetch : ∀ height w,
    (backend (env.fetch height w).2).metrics.cachedTip = (backend w).metrics.cachedTip
  add : ∀ height b w,
    (backend (env.add height b w).2).metrics.cachedTip = (backend w).metrics.cachedTip
  count : ∀ e w,
    (backend (env.count e w)).metrics.cachedTip = ((backend w).countIngest e).metrics.cachedTip
  rests : ∀ w w', rests w w' → (backend w').metrics.cachedTip = (backend w).metrics.cachedTip

/-- Where the ingestor asks and the height that the cache takes next, by the height `shown` at
which a block was last stored. -/
structure Trails (step : Nat) (s : State) (shown next : Nat) : Prop where
  ahead : s.reorgCount = 0 → (s.rewind step).height = next
  behind : 0 < s.reorgCount → (s.rewind step).height < next
  whole : s.reorgCount ≤ 1 → next = shown + 1
  cut : 1 < s.reorgCount → next ≤ shown

/-- The gauge has the height at which a block was last stored, and the cache trails it. -/
structure Tracked (step : Nat) (s : State) (w : Cache) (gauge : Binary64) (calls : List Call) :
    Prop where
  codec : w.codec = .standard
  run : (w.window = none ∧ w.entries = ∅ ∧ lastStored? calls = none) ∨
    ∃ first bs shown, w.Holds first bs ∧ lastStored? calls = some shown ∧
      gauge = (Binary64.ofNat? shown).getD .zero ∧ Trails step s shown (first + bs.length)

variable {ω ν : Type} {c : Config} {env : Environment ω} {backend : ω → Backend ν}
  {rests : ω → ω → Prop} {maxEntries start step shown next first fuel : Nat} {s s' : State}
  {v v' : ω × List Call} {w₀ : ω} {calls : List Call} {call : Call} {w w' : Cache}
  {bs : List CompactBlock} {b : CompactBlock} {gauge : Binary64} {t : Turn}
  {result : Except Error Outcome}

section Calls

theorem lastStored?_concat_of_none (calls : List Call) (hcall : call.storedHeight? = none) :
    lastStored? (calls ++ [call]) = lastStored? calls := by
  simp [lastStored?, hcall]

theorem lastStored?_concat_stored (calls : List Call) (x : Nat) (evicted : Option Nat) :
    lastStored? (calls ++ [.offered x (.ok (.stored evicted))]) = some x := by
  simp [lastStored?, Call.storedHeight?]

end Calls

section Trails

theorem Trails.frame (h : Trails step s shown next)
    (hasked : (s'.rewind step).height = (s.rewind step).height)
    (hcount : s'.reorgCount = s.reorgCount) : Trails step s' shown next where
  ahead := by
    rw [hasked, hcount]
    exact h.ahead
  behind := by
    rw [hasked, hcount]
    exact h.behind
  whole := by
    rw [hcount]
    exact h.whole
  cut := by
    rw [hcount]
    exact h.cut

theorem trails_stored (step : Nat) (s : State) :
    Trails step s.stored s.height (s.height + 1) where
  ahead _ := rfl
  behind h := absurd h (Nat.lt_irrefl 0)
  whole _ := rfl
  cut h := absurd h (Nat.not_lt_zero 1)

/-- A reorg leaves the cache with what it has below the height of the offer. -/
theorem Trails.reorg (h : Trails step s shown next) (hpending : s.rewindPending = false)
    (hstep : 0 < step) (hpos : 0 < s.height) : Trails step s.reorg shown s.height := by
  obtain ⟨hahead, hbehind, hwhole, hcut⟩ := h
  rw [State.rewind_of_not_pending hpending] at hahead hbehind
  have hcount : s.reorg.reorgCount = s.reorgCount + 1 := rfl
  have hasked : (s.reorg.rewind step).height = s.height - step := rfl
  refine ⟨?_, ?_, ?_, ?_⟩
  · omega
  · omega
  · omega
  · omega

theorem Trails.height_le (h : Trails step s shown next) (hpending : s.rewindPending = false) :
    s.height ≤ next := by
  obtain ⟨hahead, hbehind, -, -⟩ := h
  rw [State.rewind_of_not_pending hpending] at hahead hbehind
  omega

end Trails

section Tracked

theorem tracked_empty (step start maxEntries : Nat) (gauge : Binary64) :
    Tracked step (.start start) (.empty .standard maxEntries) gauge [] where
  codec := rfl
  run := .inl ⟨rfl, rfl, rfl⟩

theorem Tracked.frame (h : Tracked step s w gauge calls)
    (hasked : (s'.rewind step).height = (s.rewind step).height)
    (hcount : s'.reorgCount = s.reorgCount) : Tracked step s' w gauge calls where
  codec := h.codec
  run := h.run.imp_right fun ⟨first, bs, shown, hc, hlast, hgauge, htrails⟩ =>
    ⟨first, bs, shown, hc, hlast, hgauge, htrails.frame hasked hcount⟩

theorem Tracked.rewind (h : Tracked step s w gauge calls) :
    Tracked step (s.rewind step) w gauge calls :=
  h.frame (by rw [State.rewind_rewind]) (State.reorgCount_rewind step s)

theorem Tracked.afterFailure (h : Tracked step s w gauge calls) :
    Tracked step (afterFailure c s).state w gauge calls := by
  obtain ⟨n, hstate⟩ := exists_state_afterFailure c s
  rw [hstate]
  exact h.frame (s.height_rewind_failureCount step n) rfl

theorem Tracked.concat (h : Tracked step s w gauge calls) (hcall : call.storedHeight? = none) :
    Tracked step s w gauge (calls ++ [call]) where
  codec := h.codec
  run := by
    rw [lastStored?_concat_of_none calls hcall]
    exact h.run

theorem tracked_stored (hcodec : w.codec = .standard) (hc : w.Holds first bs)
    (hend : first + bs.length = s.height + 1) (calls : List Call) (evicted : Option Nat) :
    Tracked step s.stored w ((Binary64.ofNat? s.height).getD .zero)
      (calls ++ [.offered s.height (.ok (.stored evicted))]) where
  codec := hcodec
  run := by
    refine .inr ⟨first, bs, s.height, hc, lastStored?_concat_stored _ _ _, rfl, ?_⟩
    rw [hend]
    exact trails_stored step s

/-- A block that is offered is stored, and the gauge is then set, or it is a reorg, and the
gauge is left where it is. -/
theorem Tracked.of_add (h : Tracked step s w gauge calls) (hpending : s.rewindPending = false)
    (hstep : 0 < step) (b : CompactBlock) :
    ∃ w', (∃ evicted, w.add s.height b = (.ok (.stored evicted), w') ∧
        Tracked step s.stored w' ((Binary64.ofNat? s.height).getD .zero)
          (calls ++ [.offered s.height (.ok (.stored evicted))])) ∨
      (w.add s.height b = (.ok .reorgDetected, w') ∧
        Tracked step s.reorg w' gauge (calls ++ [.offered s.height (.ok .reorgDetected)])) := by
  have hdata := encode_of_standard h.codec b
  have hcodec := (codec_add s.height b w).trans h.codec
  rcases h.run with ⟨hwindow, hentries, -⟩ | ⟨first, bs, shown, hc, hlast, hgauge, htrails⟩
  · obtain ⟨w', hadd, hc'⟩ := add_of_fresh (h := s.height) hwindow hentries hdata
    rw [hadd] at hcodec
    exact ⟨w', .inl ⟨none, hadd, tracked_stored hcodec hc' rfl calls none⟩⟩
  have hle := htrails.height_le hpending
  have hoffer := hc.offer hdata s.height
  generalize w.add s.height b = r at hoffer hcodec ⊢
  cases hoffer with
  | @below w' _ hc' => exact ⟨w', .inl ⟨none, rfl, tracked_stored hcodec hc' rfl calls none⟩⟩
  | @onTop w' hlow hhigh _ _ hc' =>
      have hlength : (bs.take (s.height - first)).length = s.height - first :=
        List.length_take_of_le (by omega)
      refine ⟨w', .inl ⟨none, rfl, tracked_stored hcodec hc' ?_ calls none⟩⟩
      rw [List.length_append, hlength, List.length_singleton]
      omega
  | @pushOut w' hend _ _ hc' =>
      have hlength := hc.length_pos
      refine ⟨w', .inl ⟨some first, rfl, tracked_stored hcodec hc' ?_ calls (some first)⟩⟩
      rw [List.length_append, List.length_tail, List.length_singleton]
      omega
  | @reorg w' hlow hhigh _ hc' =>
      have hlength : (bs.take (s.height - first)).length = s.height - first :=
        List.length_take_of_le (by omega)
      -- something is left below the height, so that this is not zero
      have hleft := hc'.length_pos
      have hend : first + (bs.take (s.height - first)).length = s.height := by omega
      refine ⟨w', .inr ⟨rfl, hcodec, .inr ⟨first, _, shown, hc', ?_, hgauge, ?_⟩⟩⟩
      · rw [lastStored?_concat_of_none calls rfl, hlast]
      · rw [hend]
        exact htrails.reorg hpending hstep (by omega)
  | gap hgap => omega

end Tracked

section Turn

variable {backend : ω × List Call → Backend ν} {rests : ω × List Call → ω × List Call → Prop}
  {reply : Except Node.SourceError (Option CompactBlock)} {v₁ v₂ : ω × List Call}
  {outcome : Except CacheError AddOutcome}

theorem Tracked.of_fetch (hfeeds : env.noting.Feeds fun v => (backend v).cache)
    (hgauger : SoleGauger env.noting backend rests)
    (h : Tracked step s (backend v).cache (backend v).metrics.cachedTip v.2)
    (hfetch : env.noting.fetch s.height v = (reply, v₁)) :
    Tracked step s (backend v₁).cache (backend v₁).metrics.cachedTip v₁.2 := by
  have hcache := hfeeds.fetch s.height v
  have hgauge := hgauger.fetch s.height v
  rw [hfetch] at hcache hgauge
  rw [hcache, hgauge, calls_of_fetch hfetch]
  exact h.concat rfl

theorem Tracked.of_fetchFailed (hfeeds : env.noting.Feeds fun v => (backend v).cache)
    (hgauger : SoleGauger env.noting backend rests)
    (h : Tracked step s (backend v).cache (backend v).metrics.cachedTip v.2) :
    Tracked step (Ingest.afterFailure c s).state (backend (env.noting.count .fetchFailed v)).cache
      (backend (env.noting.count .fetchFailed v)).metrics.cachedTip
      (env.noting.count .fetchFailed v).2 := by
  have hcalls : (env.noting.count .fetchFailed v).2 = v.2 := rfl
  rw [hfeeds.count, hgauger.count, hcalls]
  exact h.afterFailure

theorem Tracked.of_offer (hstep : 0 < step) (hfeeds : env.noting.Feeds fun v => (backend v).cache)
    (hgauger : SoleGauger env.noting backend rests) (hpending : s.rewindPending = false)
    (h : Tracked step s (backend v₁).cache (backend v₁).metrics.cachedTip v₁.2)
    (hadd : env.noting.add s.height b v₁ = (outcome, v₂)) (hv : v' =
      env.noting.countSome (Ingest.afterAdd c s outcome).2 v₂) :
    Tracked step (Ingest.afterAdd c s outcome).1.state (backend v').cache
      (backend v').metrics.cachedTip v'.2 := by
  have houtcome := hfeeds.add_outcome s.height b v₁
  have hcache := hfeeds.add_cache s.height b v₁
  have hgauge := hgauger.add s.height b v₁
  rw [hadd] at houtcome hcache hgauge
  rw [hv, cache_countSome hfeeds, hcache, calls_countSome, calls_of_add hadd]
  obtain ⟨w', ⟨evicted, hstored, htracked⟩ | ⟨hreorg, htracked⟩⟩ := h.of_add hpending hstep b
  · rw [hstored] at houtcome ⊢
    obtain rfl : outcome = .ok (.stored evicted) := houtcome
    have hset : (backend (env.noting.count (.stored s.height) v₂)).metrics.cachedTip =
        (Binary64.ofNat? s.height).getD .zero := hgauger.count _ _
    rw [← hset] at htracked
    exact htracked
  · rw [hreorg] at houtcome ⊢
    obtain rfl : outcome = .ok .reorgDetected := houtcome
    have hleft : (backend (env.noting.count .reorgDetected v₂)).metrics.cachedTip =
        (backend v₁).metrics.cachedTip := (hgauger.count _ _).trans hgauge
    rw [← hleft] at htracked
    exact htracked

/-- In every turn the gauge keeps the height that was stored last. -/
theorem Tracked.of_turn (hstep : 0 < c.rewindStep)
    (hfeeds : env.noting.Feeds fun v => (backend v).cache)
    (hgauger : SoleGauger env.noting backend rests)
    (h : Tracked c.rewindStep s (backend v).cache (backend v).metrics.cachedTip v.2)
    (hturn : turn c env.noting s v = (t, v')) :
    Tracked c.rewindStep t.state (backend v').cache (backend v').metrics.cachedTip v'.2 := by
  have hcase := turned_of_turn hturn
  cases hcase with
  | stopped => exact h
  | tooDeep => exact h.rewind
  | caughtUp hfetch => exact h.rewind.of_fetch hfeeds hgauger hfetch
  | failed hfetch => exact (h.rewind.of_fetch hfeeds hgauger hfetch).of_fetchFailed hfeeds hgauger
  | offered hfetch hadd =>
      have hpending := State.rewindPending_rewind c.rewindStep s
      exact (h.rewind.of_fetch hfeeds hgauger hfetch).of_offer hstep hfeeds hgauger hpending hadd rfl

end Turn

theorem SoleGauger.noting (hgauger : SoleGauger env backend rests) :
    SoleGauger env.noting (fun v => backend v.1) (RestsNoting rests) where
  fetch height v := hgauger.fetch height v.1
  add height b v := hgauger.add height b v.1
  count e v := hgauger.count e v.1
  rests v v' h := hgauger.rests v.1 v'.1 h.1

section Run

/-- Whenever a turn begins, the gauge has the height that was stored last. -/
theorem Visits.tracked (hstep : 0 < c.rewindStep)
    (hsole : SoleWriter env (fun w => (backend w).cache) rests maxEntries w₀)
    (hgauger : SoleGauger env backend rests)
    (hvisit : Visits c env.noting (RestsNoting rests) (.start start) (w₀, []) s v) :
    Tracked c.rewindStep s (backend v.1).cache (backend v.1).metrics.cachedTip v.2 := by
  have hfeeds := hsole.feeds.noting
  induction hvisit with
  | start =>
      rw [hsole.empty]
      exact tracked_empty _ _ _ _
  | goOn _ hturn ih => exact ih.of_turn hstep hfeeds hgauger.noting hturn
  | round _ hturn hrests ih =>
      have htracked := ih.of_turn hstep hfeeds hgauger.noting hturn
      rw [hsole.rests _ _ hrests.1, hgauger.rests _ _ hrests.1, hrests.2]
      exact htracked

/-- At the end of a round, once a block was stored, the gauge shows the height of the block that was
stored last. That is the tip of the cache exactly if at most one reorg was found since, and
otherwise the tip is below. -/
theorem showsTip_iff_of_pollRound (hvalid : c.validate = .ok ())
    (hsole : SoleWriter env (fun w => (backend w).cache) rests maxEntries w₀)
    (hgauger : SoleGauger env backend rests)
    (hvisit : Visits c env.noting (RestsNoting rests) (.start start) (w₀, []) s v)
    (hround : pollRound c env.noting fuel s v = some (result, s', v'))
    (hstored : lastStored? v'.2 = some shown) (hsmall : shown < Nat.pow 2 53) :
    (backend v'.1).metrics.cachedTip.IsNat shown ∧
    (∃ tip, (backend v'.1).cache.latestHeight = some tip ∧ tip ≤ shown) ∧
    ((backend v'.1).ShowsTip ↔ s'.reorgCount ≤ 1) := by
  have hstep := Config.rewindStep_pos hvalid
  obtain ⟨s₁, v₁, hvisit₁, hturn⟩ := hvisit.exists_of_pollRound hround
  have htracked := (hvisit₁.tracked hstep hsole hgauger).of_turn hstep hsole.feeds.noting
    hgauger.noting hturn
  rcases htracked.run with ⟨-, -, hnone⟩ | ⟨first, bs, shown', hc, hlast, hgauge, htrails⟩
  · rw [hnone] at hstored
    cases hstored
  rw [hstored] at hlast
  cases hlast
  obtain ⟨x, hx, hshown⟩ := Binary64.exists_ofNat?_eq_some hsmall
  rw [hx, Option.getD_some] at hgauge
  have hpos := hc.length_pos
  have htip := hc.latestHeight_eq
  have hwhole : s'.reorgCount ≤ 1 → first + bs.length = shown + 1 := htrails.whole
  have hcut : 1 < s'.reorgCount → first + bs.length ≤ shown := htrails.cut
  refine ⟨hgauge ▸ hshown, ⟨_, htip, by omega⟩, ?_⟩
  constructor
  · rintro ⟨tip, hlatest, hgaugeTip⟩
    rw [htip] at hlatest
    cases hlatest
    rw [hgauge] at hgaugeTip
    have hsame := hshown.unique hgaugeTip
    omega
  · intro hfew
    refine ⟨_, htip, ?_⟩
    have hsame : first + bs.length - 1 = shown := by
      have hend := hwhole hfew
      omega
    rw [hsame, hgauge]
    exact hshown

end Run

end Ingest

namespace Server.Assembly

open Ingest Sample

variable {ν : Type}

theorem soleGauger_catchUpEnvironment (p : NodeAccess ν) :
    SoleGauger (catchUpEnvironment p) CatchUp.backend (fun v v' => v' = v) where
  fetch height v := rfl
  add height b v := rfl
  count e v := rfl
  rests v v' h := by rw [h]

/-- A node that has three linked blocks at first. From the fourth fetch on it has blocks of another
chain, but none at height one. It counts the fetches. -/
def shrinkingNode : NodeAccess Nat where
  call _ _ i := ((0, .error (.transport "no calls")), i)
  fetch height i :=
    ((0, fun i => ((0, .ok (if i < 3 then some (marked height 0 0)
      else if height = 1 then none else some (marked height 1 1))), i + 1)), i)

def stepwise : Ingest.Config := { Ingest.Config.default with rewindStep := 1 }

def shrinkingRound : Option (Except Ingest.Error Outcome × State × (CatchUp Nat × List Call)) :=
  pollRound stepwise (catchUpEnvironment shrinkingNode).noting 6 (.start 0) (emptyServer 100, [])

/-- The third block is cut off when the second reorg is found. -/
theorem exists_shrinkingRound_eq : ∃ s' v', shrinkingRound = some (.ok .caughtUp, s', v') ∧
    s'.reorgCount = 2 ∧ lastStored? v'.2 = some 2 ∧
    v'.1.backend.cache.latestHeight = some 1 ∧
    v'.1.backend.metrics.cachedTip = ⟨false, 2 * Nat.pow 2 51, -51⟩ := by
  have hround : shrinkingRound.map (fun r => (r.1.toOption, r.2.1.reorgCount, lastStored? r.2.2.2,
      r.2.2.1.backend.cache.latestHeight, r.2.2.1.backend.metrics.cachedTip)) =
      some (some .caughtUp, 2, some 2, some 1, ⟨false, 2 * Nat.pow 2 51, -51⟩) := by
    decide +kernel
  obtain ⟨⟨result, s', v'⟩, heq, hparts⟩ := Option.map_eq_some_iff.mp hround
  simp only [Prod.mk.injEq] at hparts
  obtain ⟨hresult, hparts⟩ := hparts
  cases result with
  | error e => cases hresult
  | ok outcome =>
      cases hresult
      exact ⟨s', v', heq, hparts⟩

/-- At the end of that round two blocks are cached, and the gauge shows the height of a third. -/
theorem exists_shrinkingRound_not_showsTip :
    ∃ s' v', shrinkingRound = some (.ok .caughtUp, s', v') ∧ lastStored? v'.2 = some 2 ∧
      v'.1.backend.cache.latestHeight = some 1 ∧ v'.1.backend.metrics.cachedTip.IsNat 2 ∧
      ¬ v'.1.backend.ShowsTip := by
  obtain ⟨s', v', hround, -, hlast, htip, hgauge⟩ := exists_shrinkingRound_eq
  have htwo : v'.1.backend.metrics.cachedTip.IsNat 2 := by
    rw [hgauge]
    exact Binary64.isNat_mul_pow 2 51
  refine ⟨s', v', hround, hlast, htip, htwo, ?_⟩
  rintro ⟨tip, hlatest, hshown⟩
  rw [htip] at hlatest
  cases hlatest
  cases htwo.unique hshown

/-- The round has met two reorgs since the third block was stored, so the gauge is above the tip. -/
theorem showsTip_iff_of_shrinkingRound :
    stepwise.validate = .ok () ∧
    ∃ s' v', pollRound stepwise (catchUpEnvironment shrinkingNode).noting 6 (.start 0)
        (emptyServer 100, []) = some (.ok .caughtUp, s', v') ∧
      lastStored? v'.2 = some 2 ∧ 2 < Nat.pow 2 53 ∧ s'.reorgCount = 2 ∧
      v'.1.backend.metrics.cachedTip.IsNat 2 ∧
      (∃ tip, v'.1.backend.cache.latestHeight = some tip ∧ tip ≤ 2) ∧
      (v'.1.backend.ShowsTip ↔ s'.reorgCount ≤ 1) := by
  obtain ⟨s', v', hround, hcount, hlast, -⟩ := exists_shrinkingRound_eq
  have hvisit : Visits stepwise (catchUpEnvironment shrinkingNode).noting
      (RestsNoting fun v v' => v' = v) (.start 0) (emptyServer 100, []) (.start 0)
      (emptyServer 100, []) := Visits.start
  exact ⟨rfl, s', v', hround, hlast, by decide, hcount,
    showsTip_iff_of_pollRound rfl (soleWriter_emptyServer shrinkingNode 100)
      (soleGauger_catchUpEnvironment shrinkingNode) hvisit hround hlast (by decide)⟩

end Server.Assembly

end LightServer
