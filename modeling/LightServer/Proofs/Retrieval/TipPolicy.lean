import Mathlib.Data.List.Basic
import LightServer.Proofs.Retrieval.Traffic

/-!
# The tip policy

The node is asked for heights that the cache has come to and lost again, never for one above
its last height. A reading looks at the cache twice to find out, and the cache can have
changed in between in any way. `Reading.KeepsTipPolicy` is what is left to rely on, and
every reading of every client keeps to it, whatever happens in what order.
-/

namespace LightServer

namespace Retrieval

variable {c : Cache} {h : Nat}

theorem firstLook_eq_of_get {b : CompactBlock} (hget : c.get h = .ok (some b)) :
    firstLook h c = some (.ok b) := by
  unfold firstLook
  rw [hget]

theorem firstLook_ne_notReady (h : Nat) (c : Cache) :
    firstLook h c ≠ some (.error .notReady) := by
  unfold firstLook
  split <;> nofun

theorem settle_ne_notReady (h : Nat) (reply : FetchReply) : settle h reply ≠ .error .notReady := by
  rcases reply with _ | _ | _ <;> nofun

theorem secondLook_eq_ok_iff {tip : Nat} :
    secondLook h c = .ok tip ↔ c.latestHeight = some tip ∧ h ≤ tip := by
  unfold secondLook
  cases c.latestHeight with
  | none => simp
  | some last =>
      by_cases hlast : h ≤ last
      · simp only [if_pos hlast, Except.ok.injEq, Option.some.injEq, iff_self_and]
        exact fun hsame => hsame ▸ hlast
      · simp only [if_neg hlast, Option.some.injEq, reduceCtorEq, false_iff, not_and]
        exact fun hsame => hsame ▸ hlast

theorem secondLook_eq_notReady_iff : secondLook h c = .error .notReady ↔ c.latestHeight = none := by
  unfold secondLook
  cases c.latestHeight with
  | none => simp
  | some last => by_cases hlast : h ≤ last <;> simp [hlast]

end Retrieval

namespace Backend

open LightServer.Retrieval

variable {ν : Type}

/-- What a reading can be relied on for. Its looks come one after the other, the last one after the
offers `offers` at most. The node is called once at most, for the height that is read, and only
after a look at which the cache had come to that height. A block that is there at the first look is
what comes back at once. That nothing is ready comes back only from a look before which nothing was
stored. -/
structure Reading.KeepsTipPolicy (c₀ : Cache) (offers : List (Nat × CompactBlock)) (r : Reading) :
    Prop where
  moments : (r.moments ++ [offers]).Pairwise (· <+: ·)
  called : ∀ before height after, r.seen = before ++ .called height :: after →
    height = r.height ∧ ∃ past tip, .looked past ∈ before ∧
      (c₀.addAll past).latestHeight = some tip ∧ r.height ≤ tip
  calls_le : r.calls.length ≤ 1
  resident : ∀ past after first last, r.seen = .looked past :: after →
    (c₀.addAll past).bounds = some (first, last) → first ≤ r.height → r.height ≤ last →
      ∃ b, (c₀.addAll past).get r.height = .ok (some b) ∧ after = [.returned (.ok b)]
  notReady : ∀ before after, r.seen = before ++ .returned (.error .notReady) :: after →
    ∃ init past, before = init ++ [.looked past] ∧ ¬ c₀.Stores past

variable {c₀ : Cache} {offers : List (Nat × CompactBlock)} {height : Nat} {phase : ReadPhase}
  {calling : Bool} {seen : List Glimpse}

theorem Misses.pairwise {past later : List (Nat × CompactBlock)}
    (h : Misses c₀ offers height past later) : [past, later, offers].Pairwise (· <+: ·) := by
  simp [h.earlier, h.latest, h.earlier.trans h.latest]

theorem Tells.pairwise_moments (h : Tells c₀ offers height phase calling seen) :
    (seen.filterMap Glimpse.past? ++ [offers]).Pairwise (· <+: ·) := by
  cases h with
  | begun => exact List.pairwise_singleton _ _
  | found hpast hlook => exact List.pairwise_pair.mpr hpast
  | missed hmiss => exact List.pairwise_pair.mpr hmiss.earlier
  | refused hmiss hcheck => exact hmiss.pairwise
  | cleared hmiss hcheck => exact hmiss.pairwise
  | called hmiss hcheck => exact hmiss.pairwise
  | answered hmiss hcheck reply => exact hmiss.pairwise

theorem Tells.length_calls_le (h : Tells c₀ offers height phase calling seen) :
    (seen.filterMap Glimpse.call?).length ≤ 1 := by
  cases h with
  | begun | found | missed | refused | cleared => exact Nat.zero_le _
  | called | answered => exact Nat.le_refl _

/-- A call comes right after a look that lets it through. -/
theorem Tells.called_inv (h : Tells c₀ offers height phase calling seen)
    {before after : List Glimpse} {g : Nat} (hseen : seen = before ++ .called g :: after) :
    g = height ∧ ∃ past tip, .looked past ∈ before ∧
      (c₀.addAll past).latestHeight = some tip ∧ height ≤ tip := by
  have hcleared : ∀ {past later : List (Nat × CompactBlock)} {tip : Nat} {rest : List Glimpse},
      secondLook height (c₀.addAll later) = .ok tip → (∀ g, .called g ∉ rest) →
      [.looked past, .looked later] ++ .called height :: rest = before ++ .called g :: after →
      g = height ∧ ∃ past tip, .looked past ∈ before ∧
        (c₀.addAll past).latestHeight = some tip ∧ height ≤ tip := by
    intro past later tip rest hcheck hrest heq
    -- there is one call only, so it splits the reading in one way
    obtain ⟨hbefore, hcalled, -⟩ :=
      (List.append_cons_inj_of_notMem (by simp) (hrest g)).mp heq
    cases hcalled
    obtain ⟨htip, hle⟩ := secondLook_eq_ok_iff.mp hcheck
    exact ⟨rfl, later, tip, by simp [← hbefore], htip, hle⟩
  have hmem : .called g ∈ seen := by
    rw [hseen]
    exact List.mem_append_right _ List.mem_cons_self
  cases h with
  | begun | found | missed | refused | cleared => simp at hmem
  | called hmiss hcheck => exact hcleared hcheck (by simp) hseen
  | answered hmiss hcheck reply => exact hcleared hcheck (by simp) hseen

/-- A block that the first look finds is all that comes of the reading. -/
theorem Tells.eq_of_get (h : Tells c₀ offers height phase calling seen)
    {past : List (Nat × CompactBlock)} {after : List Glimpse} {b : CompactBlock}
    (hseen : seen = .looked past :: after) (hget : (c₀.addAll past).get height = .ok (some b)) :
    after = [.returned (.ok b)] := by
  have hlook := firstLook_eq_of_get hget
  have hthere : ∀ {later : List (Nat × CompactBlock)}, ¬ Misses c₀ offers height past later := by
    intro later hmiss
    rw [hmiss.missing] at hlook
    cases hlook
  cases h with
  | begun => cases hseen
  | found hpast hitem =>
      cases hseen
      rw [hitem] at hlook
      cases hlook
      rfl
  | missed hmiss | refused hmiss | cleared hmiss | called hmiss | answered hmiss =>
      cases hseen
      exact absurd hmiss hthere

/-- That nothing is ready comes back right after a look at a cache without a last height. -/
theorem Tells.notReady_inv (h : Tells c₀ offers height phase calling seen)
    {before after : List Glimpse}
    (hseen : seen = before ++ .returned (.error .notReady) :: after) :
    ∃ init past, before = init ++ [.looked past] ∧ (c₀.addAll past).latestHeight = none := by
  have hmem : .returned (.error .notReady) ∈ seen := by
    rw [hseen]
    exact List.mem_append_right _ List.mem_cons_self
  cases h with
  | begun | missed | cleared | called => simp at hmem
  | found hpast hlook =>
      simp only [List.mem_cons, reduceCtorEq, false_or, List.not_mem_nil, or_false,
        Glimpse.returned.injEq] at hmem
      rw [← hmem] at hlook
      exact absurd hlook (firstLook_ne_notReady _ _)
  | @refused past later e hmiss hcheck =>
      simp only [List.mem_cons, reduceCtorEq, false_or, List.not_mem_nil, or_false,
        Glimpse.returned.injEq] at hmem
      cases hmem
      have hsplit : [.looked past, .looked later] ++ [.returned (.error .notReady)] =
          before ++ .returned (.error .notReady) :: after := hseen
      obtain ⟨hbefore, -⟩ := (List.append_cons_inj_of_notMem (by simp) (by simp)).mp hsplit
      exact ⟨[.looked past], later, hbefore.symm, secondLook_eq_notReady_iff.mp hcheck⟩
  | answered hmiss hcheck reply =>
      simp only [List.mem_cons, reduceCtorEq, false_or, List.not_mem_nil, or_false,
        Glimpse.returned.injEq] at hmem
      exact absurd hmem.symm (settle_ne_notReady height reply)

/-- What is told of a reading keeps the tip policy, if all that was offered can be stored. -/
theorem Tells.keepsTipPolicy {maxEntries : Nat} {r : Reading}
    (h : Tells (.empty .standard maxEntries) offers r.height phase calling r.seen)
    (hstorable : ∀ q ∈ offers, q.2.Storable) :
    r.KeepsTipPolicy (.empty .standard maxEntries) offers where
  moments := h.pairwise_moments
  called _ _ _ hseen := h.called_inv hseen
  calls_le := h.length_calls_le
  resident := by
    intro past after first last hseen hbounds hlow hhigh
    have hmem : past ∈ r.seen.filterMap Glimpse.past? :=
      List.mem_filterMap.mpr ⟨.looked past, hseen ▸ List.mem_cons_self, rfl⟩
    have hpast : past <+: offers :=
      (List.pairwise_append.mp h.pairwise_moments).2.2 past hmem offers List.mem_cons_self
    have hsound : Cache.Sound CompactBlock.Storable
        ((Cache.empty .standard maxEntries).addAll past) :=
      (Cache.sound_empty _ _ _).addAll fun q hq => hstorable q (hpast.subset hq)
    obtain ⟨b, hget⟩ := Cache.exists_get_of_bounds hsound (Cache.codec_addAll past _) hbounds
      hlow hhigh
    exact ⟨b, hget, h.eq_of_get hseen hget⟩
  notReady := by
    intro before after hseen
    obtain ⟨init, past, hbefore, hnone⟩ := h.notReady_inv hseen
    exact ⟨init, past, hbefore, Cache.not_stores_of_latestHeight_eq_none hnone⟩

namespace Traffic

variable {p : NodeAccess ν}

theorem offers_after (p : NodeAccess ν) (e : Happening ν) (t : Traffic ν) :
    (t.after p e).offers = t.offers ++ e.offer?.toList := by
  cases e with
  | add height b => rfl
  | wait | elsewhere | get | stream => exact (List.append_nil _).symm
  | work i =>
      have hwork : (t.work p i).offers = t.offers := by
        unfold work
        split
        · rfl
        · split <;> rfl
      exact hwork.trans (List.append_nil _).symm
  | gesture i g =>
      have hgesture : (t.gesture i g).offers = t.offers := by
        unfold gesture
        split <;> rfl
      exact hgesture.trans (List.append_nil _).symm

theorem offers_run (p : NodeAccess ν) (es : List (Happening ν)) (t : Traffic ν) :
    (t.run p es).offers = t.offers ++ es.filterMap Happening.offer? := by
  induction es generalizing t with
  | nil => exact (List.append_nil _).symm
  | cons e es ih =>
      have hrun : (t.run p (e :: es)).offers = ((t.after p e).run p es).offers := rfl
      rw [hrun, ih, offers_after, List.append_assoc]
      cases he : e.offer? with
      | none => rw [List.filterMap_cons_none he]; rfl
      | some q => rw [List.filterMap_cons_some he]; rfl

/-- The cache is what the offers alone have made of it, the node was called only by the readings, and
all of these keep the tip policy. A client that is to look at the cache does not have to wait. -/
structure UpholdsTipPolicy (c₀ : Cache) (offers : List (Nat × CompactBlock)) (p : NodeAccess ν)
    (t : Traffic ν) : Prop where
  cache : t.backend.cache = c₀.addAll offers
  calls : (t.visitors.flatMap Visitor.calls).Perm t.log
  readings : ∀ v ∈ t.visitors, ∀ r ∈ v.readings, r.KeepsTipPolicy c₀ offers
  goes_on : ∀ v ∈ t.visitors, ∀ g ∈ v.client.stage?, g.looks = true →
    ∃ next, v.client.step? p.logging t.backend = some next

/-- Whatever happens in what order, the tip policy is upheld. -/
theorem upholdsTipPolicy_run (p : NodeAccess ν) (world : ν) (maxEntries : Nat) (metrics : Metrics)
    (now : Nat) (es : List (Happening ν))
    (hstorable : ∀ q ∈ es.filterMap Happening.offer?, q.2.Storable) :
    UpholdsTipPolicy (.empty .standard maxEntries) (es.filterMap Happening.offer?) p
      ((begin ⟨world, .empty .standard maxEntries, metrics, now⟩).run p es) := by
  have hkept := (kept_begin ⟨world, .empty .standard maxEntries, metrics, now⟩).run p es
  have hoffers : ((begin ⟨world, .empty .standard maxEntries, metrics, now⟩).run p es).offers =
      es.filterMap Happening.offer? := offers_run p es _
  exact {
    cache := by
      rw [← hoffers]
      exact hkept.cache
    calls := hkept.calls
    readings := by
      intro v hv r hr
      obtain ⟨phase, calling, htells⟩ := (hkept.visitors v hv).told.each r hr
      rw [hoffers] at htells
      exact htells.keepsTipPolicy hstorable
    goes_on := by
      intro v hv g hg hlooks
      exact Client.exists_step?_of_looks (hkept.visitors v hv).sane hg hlooks _ _ }

def bareNode : NodeAccess Unit where
  call _ _ w := ((0, .ok .null), w)
  fetch _ w := ((0, fun w => ((0, .ok none), w)), w)

/-- Height 7 is looked for before there is anything. By the second look the block has come, and has
gone again to make room for the one at height 8, which is read from the cache. -/
def lateLook : List (Happening Unit) :=
  let a := Sample.block 0 7 (Octets.zero 32)
  [.get 7, .work 0, .add 7 a, .add 8 (Sample.block 0 8 a.hash), .work 0, .work 0, .get 8, .work 1,
    .work 0, .work 0]

theorem upholdsTipPolicy_run_of_lateLook :
    (∀ q ∈ lateLook.filterMap Happening.offer?, q.2.Storable) ∧
      ((begin ⟨(), .empty .standard 1, {}, 0⟩).run bareNode lateLook).log = [7] ∧
      UpholdsTipPolicy (.empty .standard 1) (lateLook.filterMap Happening.offer?) bareNode
        ((begin ⟨(), .empty .standard 1, {}, 0⟩).run bareNode lateLook) := by
  have hstorable : ∀ q ∈ lateLook.filterMap Happening.offer?, q.2.Storable := by
    simp only [lateLook, Happening.offer?, List.filterMap_cons, List.filterMap_nil]
    simp [Sample.storable_block]
  exact ⟨hstorable, by decide +kernel, upholdsTipPolicy_run bareNode () 1 {} 0 lateLook hstorable⟩

end Traffic

end Backend
end LightServer
