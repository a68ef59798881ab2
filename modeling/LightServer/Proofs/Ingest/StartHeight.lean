import LightServer.Proofs.Ingest.Ceiling
import LightServer.Proofs.Ingest.Ledger

/-!
# Below the start height

The start height is where ingestion begins, and nothing holds the ingestor there.
A reorg sends it back by a rewind step, and a block that it then finds below all
cached ones is cached in their place. It takes a reorg less than a step above the start
height, though, because every reorg has a cached block below it, and as long
as none below the start height was fetched there is none. So the start height is the lowest
one that is ever cached exactly if a rewind cannot cross it: it is zero, or
a step is at most one height, or the first reorg already ends the ingestor.
-/

namespace LightServer

/-- A reorg is found against the entry below. -/
theorem Cache.exists_entry_of_reorg {w w' : Cache} {x : Nat} {b : CompactBlock}
    (hadd : w.add x b = (.ok .reorgDetected, w')) : 0 < x ∧ ∃ e, w'.entries[x - 1]? = some e := by
  unfold add at hadd
  split at hadd
  next => cases hadd
  next data hdata =>
    split at hadd
    next => cases hadd
    next window entries hroom =>
      split at hadd
      next hfits => cases hadd
      next hfits =>
        cases hadd
        unfold fitsAbove at hfits
        split at hfits
        next hzero => exact absurd rfl hfits
        next hzero =>
          split at hfits
          next hnone => exact absurd rfl hfits
          next e he => exact ⟨Nat.pos_of_ne_zero hzero, e, he⟩

namespace Ingest

open Cache

variable {ω : Type} {c : Config} {env : Environment ω} {s s' : State} {v v' : ω × List Call}
  {start limit : Nat} {calls : List Call} {t : Turn}

/-- A reorg that the ingestor tolerates was found less than a rewind step above the start height. -/
def Fell (c : Config) (start : Nat) (calls : List Call) : Prop :=
  0 < c.maxReorgRounds ∧ ∃ y, start < y ∧ y < start + c.rewindStep ∧
    Call.offered y (.ok .reorgDetected) ∈ calls

/-- Nothing below the start height was fetched, nor is it going to be in the next turn. -/
structure Aloft (c : Config) (start : Nat) (s : State) (calls : List Call) : Prop where
  fetched : ∀ h reply, Call.fetched h reply ∈ calls → start ≤ h
  asks : s.reorgCount ≤ c.maxReorgRounds → start ≤ (s.rewind c.rewindStep).height

theorem aloft_start (c : Config) (start : Nat) : Aloft c start (.start start) [] where
  fetched h reply hmem := by cases hmem
  asks _ := Nat.le_refl start

/-- Being aloft hangs on the height that is asked for and on the count of reorgs. -/
theorem Aloft.frame (h : Aloft c start s calls)
    (hasked : (s'.rewind c.rewindStep).height = (s.rewind c.rewindStep).height)
    (hcount : s'.reorgCount = s.reorgCount) : Aloft c start s' calls where
  fetched := h.fetched
  asks := by
    rw [hasked, hcount]
    exact h.asks

theorem Aloft.rewind (h : Aloft c start s calls) :
    Aloft c start (s.rewind c.rewindStep) calls :=
  h.frame (by rw [State.rewind_rewind]) (State.reorgCount_rewind _ s)

theorem Aloft.afterFailure (h : Aloft c start s calls) :
    Aloft c start (afterFailure c s).state calls := by
  obtain ⟨n, hstate⟩ := exists_state_afterFailure c s
  rw [hstate]
  exact h.frame (s.height_rewind_failureCount _ n) rfl

theorem Aloft.concat_fetched {x : Nat} (h : Aloft c start s calls) (hx : start ≤ x)
    (reply : Except Node.SourceError (Option CompactBlock)) :
    Aloft c start s (calls ++ [.fetched x reply]) where
  fetched g r hmem := by
    rcases List.mem_append.mp hmem with hold | hnew
    · exact h.fetched g r hold
    · cases List.mem_singleton.mp hnew
      exact hx
  asks := h.asks

theorem Aloft.concat_offered (h : Aloft c start s calls) (x : Nat)
    (outcome : Except CacheError AddOutcome) :
    Aloft c start s (calls ++ [.offered x outcome]) where
  fetched g r hmem := by
    rcases List.mem_append.mp hmem with hold | hnew
    · exact h.fetched g r hold
    · cases List.mem_singleton.mp hnew
  asks := h.asks

theorem Fell.mono {calls' : List Call} (h : Fell c start calls) (hcalls : calls <+: calls') :
    Fell c start calls' := by
  obtain ⟨hpos, y, hlow, hhigh, hmem⟩ := h
  exact ⟨hpos, y, hlow, hhigh, hcalls.subset hmem⟩

/-- A tolerated reorg that leads below the start height was found less than a step above it. -/
theorem Aloft.afterAdd (h : Aloft c start s calls) (hle : start ≤ s.height)
    (outcome : Except CacheError AddOutcome)
    (hgap : ∀ expected got, outcome ≠ .error (.heightGap expected got))
    (hreorg : outcome = .ok .reorgDetected → start < s.height) :
    Fell c start (calls ++ [.offered s.height outcome]) ∨
      Aloft c start (afterAdd c s outcome).1.state (calls ++ [.offered s.height outcome]) := by
  have hconcat := h.concat_offered s.height outcome
  rcases outcome with (e | expected) | (evicted | _)
  · exact .inr (h.afterFailure.concat_offered s.height _)
  · exact absurd rfl (hgap expected _)
  · exact .inr ⟨hconcat.fetched, fun _ => Nat.le_succ_of_le hle⟩
  · by_cases hback : start ≤ s.height - c.rewindStep
    · exact .inr ⟨hconcat.fetched, fun _ => hback⟩
    · have hlow := hreorg rfl
      rcases Nat.eq_zero_or_pos c.maxReorgRounds with hnone | hpos
      · refine .inr ⟨hconcat.fetched, fun hbounded => ?_⟩
        have hcount : s.reorgCount + 1 ≤ c.maxReorgRounds := hbounded
        omega
      · exact .inl ⟨hpos, s.height, hlow, by omega, by simp⟩

def FetchedAt (v : ω × List Call) (g : Nat) (y : CompactBlock) : Prop :=
  Call.fetched g (.ok (some y)) ∈ v.2

theorem remembers_noting (env : Environment ω) :
    env.noting.Remembers (FetchedAt (ω := ω)) where
  fetched height v b v' hfetch := by
    rw [FetchedAt, calls_of_fetch hfetch]
    exact List.mem_append_right _ (List.mem_singleton.mpr rfl)
  fetch height v g y h := List.mem_append_left _ h
  add height b v g y h := List.mem_append_left _ h
  count e v g y h := h

theorem Environment.Feeds.noting {cache : ω → Cache} (hfeeds : env.Feeds cache) :
    env.noting.Feeds fun v => cache v.1 where
  fetch height v := hfeeds.fetch height v.1
  add_outcome height b v := hfeeds.add_outcome height b v.1
  add_cache height b v := hfeeds.add_cache height b v.1
  count e v := hfeeds.count e v.1

section Turn

variable {cache : ω × List Call → Cache} {v₁ v₂ : ω × List Call} {b : CompactBlock}
  {outcome : Except CacheError AddOutcome}

theorem turn_of_stopped (hstop : env.stopped v.1 = true) :
    turn c env.noting s v = (.finished (.ok .stopped) s, v) := by
  have hnoting : env.noting.stopped v = true := hstop
  rw [turn, if_pos hnoting]

/-- A block is fetched and offered in two calls. -/
theorem calls_of_offer (hfetch : env.noting.fetch s.height v = (.ok (some b), v₁))
    (hadd : env.noting.add s.height b v₁ = (outcome, v₂)) (e : Option Event) :
    (env.noting.countSome e v₂).2 =
      v.2 ++ [.fetched s.height (.ok (some b))] ++ [.offered s.height outcome] := by
  rw [calls_countSome, calls_of_add hadd, calls_of_fetch hfetch]

theorem Aloft.of_offer (hfeeds : env.noting.Feeds cache) (h : Aloft c start s v.2)
    (hx : start ≤ s.height) (hfetch : env.noting.fetch s.height v = (.ok (some b), v₁))
    (hadd : env.noting.add s.height b v₁ = (outcome, v₂)) (e : Option Event)
    (hgap : ∀ expected got, ((cache v).add s.height b).1 ≠ .error (.heightGap expected got))
    (hpace : Pace c.rewindStep limit (FetchedAt (env.noting.countSome e v₂)) s'
      (cache (env.noting.countSome e v₂))) :
    Fell c start (env.noting.countSome e v₂).2 ∨
      Aloft c start (Ingest.afterAdd c s outcome).1.state (env.noting.countSome e v₂).2 := by
  have houtcome := hfeeds.add_outcome s.height b v₁
  have hcache := hfeeds.add_cache s.height b v₁
  have hsame := hfeeds.fetch s.height v
  rw [hadd] at houtcome hcache
  rw [hfetch] at hsame
  have hfetched := h.concat_fetched hx (.ok (some b))
  have hcalls := calls_of_offer hfetch hadd e
  rw [hcalls]
  refine hfetched.afterAdd hx outcome (fun expected got hnext => ?_) fun hreorg => ?_
  · refine hgap expected got ?_
    rw [← hsame, ← houtcome, hnext]
  · -- the entry that the block does not extend was fetched, and not below the start
    have hboth : (cache v₁).add s.height b = (.ok .reorgDetected, cache v₂) :=
      Prod.ext (houtcome.symm.trans hreorg) hcache.symm
    obtain ⟨hpos, entry, hentry⟩ := exists_entry_of_reorg hboth
    rw [← cache_countSome hfeeds] at hentry
    obtain ⟨y, hy, -⟩ := hpace.exists_of_entry hentry
    rw [FetchedAt, hcalls] at hy
    have hbelow := (hfetched.concat_offered _ outcome).fetched _ _ hy
    omega

/-- Too many reorgs end the ingestor before it fetches anything. -/
theorem Aloft.of_turn_of_lt (h : Aloft c start s v.2) (hdeep : c.maxReorgRounds < s.reorgCount)
    (hturn : turn c env.noting s v = (t, v')) : Aloft c start t.state v'.2 := by
  cases hstop : env.stopped v.1 with
  | true =>
      rw [turn_of_stopped hstop] at hturn
      cases hturn
      exact h
  | false =>
      have hrun : env.noting.stopped v = false := hstop
      rw [turn_of_lt hrun hdeep] at hturn
      cases hturn
      exact h.rewind

/-- Only a reorg can end that nothing below the start height is fetched. -/
theorem Aloft.of_turn (hfeeds : env.noting.Feeds cache)
    (hpace : Pace c.rewindStep limit (FetchedAt v) s (cache v)) (h : Aloft c start s v.2)
    (hturn : turn c env.noting s v = (t, v')) : Fell c start v'.2 ∨ Aloft c start t.state v'.2 := by
  rcases Nat.lt_or_ge c.maxReorgRounds s.reorgCount with hdeep | hbounded
  · exact .inr (h.of_turn_of_lt hdeep hturn)
  have hx := h.asks hbounded
  have hpace' := hpace.of_turn hfeeds (remembers_noting env) hturn
  have hcase := turned_of_turn hturn
  cases hcase with
  | stopped => exact .inr h
  | tooDeep => exact .inr h.rewind
  | caughtUp hfetch =>
      rw [calls_of_fetch hfetch]
      exact .inr (h.rewind.concat_fetched hx _)
  | @failed v₁ e hfetch =>
      have hcount : (env.noting.count .fetchFailed v₁).2 = v₁.2 := rfl
      rw [hcount, calls_of_fetch hfetch]
      exact .inr (h.rewind.afterFailure.concat_fetched hx _)
  | offered hfetch hadd =>
      exact h.rewind.of_offer hfeeds hx hfetch hadd _ (fun _ _ => hpace.add_ne_heightGap _) hpace'

theorem isPrefix_calls_of_turn (hturn : turn c env.noting s v = (t, v')) : v.2 <+: v'.2 := by
  have hcase := turned_of_turn hturn
  cases hcase with
  | stopped | tooDeep => exact List.prefix_rfl
  | caughtUp hfetch =>
      rw [calls_of_fetch hfetch]
      exact List.prefix_append _ _
  | @failed v₁ e hfetch =>
      have hcount : (env.noting.count .fetchFailed v₁).2 = v₁.2 := rfl
      rw [hcount, calls_of_fetch hfetch]
      exact List.prefix_append _ _
  | offered hfetch hadd =>
      rw [calls_of_offer hfetch hadd, List.append_assoc]
      exact List.prefix_append _ _

theorem fell_or_aloft_of_turn (hfeeds : env.noting.Feeds cache)
    (hpace : Pace c.rewindStep limit (FetchedAt v) s (cache v))
    (h : Fell c start v.2 ∨ Aloft c start s v.2) (hturn : turn c env.noting s v = (t, v')) :
    Fell c start v'.2 ∨ Aloft c start t.state v'.2 := by
  rcases h with hfell | haloft
  · exact .inl (hfell.mono (isPrefix_calls_of_turn hturn))
  · exact haloft.of_turn hfeeds hpace hturn

end Turn

/-- The ingestor alone writes to the cache, which is empty at first. -/
structure SoleWriter (env : Environment ω) (cache : ω → Cache) (rests : ω → ω → Prop)
    (maxEntries : Nat) (w₀ : ω) : Prop where
  feeds : env.Feeds cache
  rests : ∀ w w', rests w w' → cache w' = cache w
  empty : cache w₀ = .empty .standard maxEntries

def RestsNoting (rests : ω → ω → Prop) (v v' : ω × List Call) : Prop :=
  rests v.1 v'.1 ∧ v'.2 = v.2

section Run

variable {cache : ω → Cache} {rests : ω → ω → Prop} {maxEntries : Nat} {w₀ : ω}

theorem Visits.fell_or_aloft (hsole : SoleWriter env cache rests maxEntries w₀)
    (hvisit : Visits c env.noting (RestsNoting rests) (.start start) (w₀, []) s v) :
    Pace c.rewindStep (max maxEntries 1) (FetchedAt v) s (cache v.1) ∧
      (Fell c start v.2 ∨ Aloft c start s v.2) := by
  have hfeeds := hsole.feeds.noting
  induction hvisit with
  | start =>
      rw [hsole.empty]
      exact ⟨pace_empty _ _ _ _, .inr (aloft_start c start)⟩
  | goOn _ hturn ih =>
      obtain ⟨hpace, h⟩ := ih
      exact ⟨hpace.of_turn hfeeds (remembers_noting env) hturn,
        fell_or_aloft_of_turn hfeeds hpace h hturn⟩
  | round _ hturn hrests ih =>
      obtain ⟨hpace, h⟩ := ih
      obtain ⟨hquiet, hcalls⟩ := hrests
      have hpace' := hpace.of_turn hfeeds (remembers_noting env) hturn
      rw [hsole.rests _ _ hquiet, hcalls]
      refine ⟨hpace'.mono fun g y hy => ?_, fell_or_aloft_of_turn hfeeds hpace h hturn⟩
      rw [FetchedAt, hcalls]
      exact hy

/-- What is cached below the start height was fetched there, and not before a reorg was found less
than a rewind step above the start height. -/
theorem Visits.fell_of_entry {h : Nat} {e : Entry}
    (hsole : SoleWriter env cache rests maxEntries w₀)
    (hvisit : Visits c env.noting (RestsNoting rests) (.start start) (w₀, []) s v)
    (he : (cache v.1).entries[h]? = some e) (hlow : h < start) :
    Fell c start v.2 ∧ ∃ b, FetchedAt v h b ∧ e.hash = b.hash := by
  obtain ⟨hpace, hfell | haloft⟩ := hvisit.fell_or_aloft hsole
  · obtain ⟨b, hb, hhash, -⟩ := hpace.exists_of_entry he
    exact ⟨hfell, b, hb, hhash⟩
  · obtain ⟨b, hb, -⟩ := hpace.exists_of_entry he
    exact absurd hlow (Nat.not_lt.mpr (haloft.fetched _ _ hb))

end Run

/-- Whatever surrounds the ingestor, blocks below the start height come from the source, and only
after a reorg less than a rewind step above it. -/
def CachesBelowAfterFall (c : Config) (maxEntries start : Nat) : Prop :=
  ∀ (ω : Type) (env : Environment ω) (cache : ω → Cache) (rests : ω → ω → Prop) (w₀ : ω)
    (s : State) (v : ω × List Call), SoleWriter env cache rests maxEntries w₀ →
    Visits c env.noting (RestsNoting rests) (.start start) (w₀, []) s v →
    ∀ h e, (cache v.1).entries[h]? = some e → h < start →
      Fell c start v.2 ∧ ∃ b, FetchedAt v h b ∧ e.hash = b.hash

/-- Whatever surrounds the ingestor, nothing below the start height is ever cached. -/
def NeverCachesBelow (c : Config) (maxEntries start : Nat) : Prop :=
  ∀ (ω : Type) (env : Environment ω) (cache : ω → Cache) (rests : ω → ω → Prop) (w₀ : ω)
    (s : State) (w : ω), SoleWriter env cache rests maxEntries w₀ →
    Visits c env rests (.start start) w₀ s w →
    ∀ h e, (cache w).entries[h]? = some e → start ≤ h

theorem neverCachesBelow_of_not_crossed {maxEntries : Nat}
    (h : start = 0 ∨ c.rewindStep ≤ 1 ∨ c.maxReorgRounds = 0) :
    NeverCachesBelow c maxEntries start := by
  intro ω env cache rests w₀ s w hsole hvisit g e he
  obtain ⟨calls, hnoted⟩ := hvisit.exists_noting
  refine Nat.le_of_not_lt fun hlow => ?_
  obtain ⟨⟨hpos, y, hy, hnear, -⟩, -⟩ :=
    hnoted.fell_of_entry (v := (w, calls)) hsole he hlow
  omega

end Ingest

namespace Server.Assembly

open Ingest Cache Sample

variable {c : Ingest.Config} {start : Nat}

theorem soleWriter_emptyServer (p : NodeAccess Nat) (maxEntries : Nat) :
    SoleWriter (catchUpEnvironment p) (fun v => v.backend.cache) (fun v v' => v' = v) maxEntries
      (emptyServer maxEntries) where
  feeds := feeds_catchUpEnvironment p
  rests w w' h := by rw [h]
  empty := rfl

/-- A node that changes its mind after the first block sends the ingestor to a height below the
start height, where a block is cached in place of the first one. -/
theorem exists_visits_fickleNode (maxEntries : Nat) (hpos : 0 < start) (hstep : 1 < c.rewindStep)
    (hrounds : 0 < c.maxReorgRounds) :
    ∃ s v, Visits c (catchUpEnvironment (fickleNode 1)) (fun v v' => v' = v) (.start start)
        (emptyServer maxEntries) s v ∧
      v.backend.cache.Holds (start + 1 - c.rewindStep)
        [marked (start + 1 - c.rewindStep) 1 1] := by
  obtain ⟨k₁, hadd₁, hholds₁⟩ := add_of_fresh (c := Cache.empty .standard maxEntries) (h := start)
    (b := marked start 0 0) rfl rfl rfl
  obtain ⟨v₁, hturn₁, rfl, hworld₁⟩ := exists_turn_of_add (c := c) (p := fickleNode 1)
    (v := emptyServer maxEntries) (State.asks_start c.rewindStep start) (Nat.zero_le _)
    (fetch_fickleNode_of_lt Nat.one_pos) hadd₁
  have hcodec₁ : v₁.backend.cache.codec = .standard := codec_eq_of_add hadd₁
  -- the mark of the cached block is not the one that the next block names as its parent
  have hmarks : Octets.fill 32 1 ≠ Octets.fill 32 0 := by decide
  have hmisfit : ¬ (marked (start + 1) 1 1).Extends (marked start 0 0).hash := hmarks
  obtain ⟨k₂, bs, hadd₂, hholds₂, -⟩ := hholds₁.add_of_misfit (encode_of_standard hcodec₁ _)
    (blockAt?_singleton_eq_some_iff.mpr ⟨rfl, rfl⟩) hmisfit
  have hworld₁ : v₁.backend.world = 1 := hworld₁
  obtain ⟨v₂, hturn₂, rfl, hworld₂⟩ := exists_turn_of_add (c := c)
    (State.asks_stored c.rewindStep start 0 0) (Nat.zero_le _)
    (fetch_fickleNode_of_le (Nat.le_of_eq hworld₁.symm)) hadd₂
  have hcodec₂ : v₂.backend.cache.codec = .standard := (codec_eq_of_add hadd₂).trans hcodec₁
  rw [world_fetch_fickleNode, hworld₁] at hworld₂
  obtain ⟨k₃, hadd₃, hholds₃⟩ := hholds₂.add_below (h := start + 1 - c.rewindStep)
    (encode_of_standard hcodec₂ (marked (start + 1 - c.rewindStep) 1 1)) (by omega)
  obtain ⟨v₃, hturn₃, rfl, -⟩ := exists_turn_of_add (c := c) (p := fickleNode 1)
    (State.asks_reorg c.rewindStep (start + 1) 0 (0 - 1)) hrounds
    (fetch_fickleNode_of_le (by omega)) hadd₃
  exact ⟨_, v₃, ((Visits.start.goOn hturn₁).goOn hturn₂).goOn hturn₃, hholds₃⟩

theorem not_neverCachesBelow (maxEntries : Nat) (hpos : 0 < start) (hstep : 1 < c.rewindStep)
    (hrounds : 0 < c.maxReorgRounds) : ¬ NeverCachesBelow c maxEntries start := by
  intro hnever
  obtain ⟨s, v, hvisit, hholds⟩ := exists_visits_fickleNode (c := c) maxEntries hpos hstep hrounds
  obtain ⟨e, he, -⟩ := hholds.spans.kept 0 _ rfl
  have hle := hnever _ _ _ _ _ s v (soleWriter_emptyServer _ maxEntries) hvisit _ e he
  omega

/-- A block below the start height is cached only after a tolerated reorg less than a rewind step
above it. So none ever is exactly if no such rewind can cross the start height. -/
theorem cachesBelowAfterFall_and_neverCachesBelow_iff (c : Ingest.Config) (maxEntries : Nat)
    (resume activation : Option Nat) :
    CachesBelowAfterFall c maxEntries (startHeight resume activation) ∧
    (NeverCachesBelow c maxEntries (startHeight resume activation) ↔
      startHeight resume activation = 0 ∨ c.rewindStep ≤ 1 ∨ c.maxReorgRounds = 0) := by
  refine ⟨fun ω env cache rests w₀ s v hsole hvisit h e he hlow =>
    hvisit.fell_of_entry hsole he hlow, fun hnever => ?_, neverCachesBelow_of_not_crossed⟩
  refine Decidable.byContradiction fun hcross => ?_
  exact not_neverCachesBelow maxEntries (by omega) (by omega) (by omega) hnever

/-- With the default settings a server that is to start at five ends up with a block at zero, and
with none at five. -/
theorem not_neverCachesBelow_of_default :
    startHeight (some 3) (some 5) = 5 ∧
    ¬ NeverCachesBelow .default 100 (startHeight (some 3) (some 5)) ∧
    ∃ s v, Visits .default (catchUpEnvironment (fickleNode 1)) (fun v v' => v' = v)
        (.start (startHeight (some 3) (some 5))) (emptyServer 100) s v ∧
      v.backend.cache.bounds = some (0, 0) := by
  have hpos : 0 < startHeight (some 3) (some 5) := by decide
  obtain ⟨s, v, hvisit, hholds⟩ :=
    exists_visits_fickleNode (c := .default) 100 hpos (by decide) (by decide)
  exact ⟨rfl, not_neverCachesBelow 100 hpos (by decide) (by decide), s, v, hvisit,
    hholds.bounds_eq⟩

end Server.Assembly

end LightServer
