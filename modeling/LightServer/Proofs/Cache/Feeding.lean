import LightServer.Proofs.Cache.Effect

/-!
# Feeding a linked run

Linked blocks can be offered one after the other, at heights that follow each
other. Only the first of them can fail: once it is stored, each of the others
finds its parent just below. `Stocked.feed` follows such a run from the end of
the cached blocks on. What is held after it is the newest part of all of them,
as much as the cache has room for, so nothing needs to be said about single
evictions. Where the first block goes only decides how many of the older blocks
lie below the run.
-/

namespace LightServer

namespace Cache

def offersFrom : Nat → List CompactBlock → List (Nat × CompactBlock)
  | _, [] => []
  | h, b :: bs => (h, b) :: offersFrom (h + 1) bs

/-- The number of cached heights that a run from `s` on leaves below it, unless there is a gap or
they are pushed out. -/
def heightsBelow (s : Nat) (c : Cache) : Nat :=
  match c.bounds with
  | some (first, _) => s - first
  | none => 0

variable {c c' : Cache} {first h s : Nat} {bs rs : List CompactBlock} {b : CompactBlock}
  {evicted : Option Nat} {P : Except CacheError AddOutcome → Prop}

theorem forall_outcomes_offersFrom_cons :
    (∀ o ∈ c.outcomes (offersFrom h (b :: bs)), P o) ↔
      P (c.add h b).1 ∧ ∀ o ∈ (c.add h b).2.outcomes (offersFrom (h + 1) bs), P o :=
  List.forall_mem_cons

theorem addAll_offersFrom_cons :
    c.addAll (offersFrom h (b :: bs)) = (c.add h b).2.addAll (offersFrom (h + 1) bs) := rfl

namespace Stocked

/-- A block that extends the last one is stored on top of it. The oldest block goes when the cache
is full, and only then. -/
theorem add_next (hc : c.Stocked first bs) (hb : b.Storable) (hextends : b.ExtendsLast bs) :
    ∃ evicted c', c.add (first + bs.length) b = (.ok (.stored evicted), c') ∧
      (bs.length < c.capacity → evicted = none) ∧
      c'.Stocked (first + (bs.length + 1 - c.capacity))
        ((bs ++ [b]).drop (bs.length + 1 - c.capacity)) := by
  have hbounded := hc.holds.bounded
  have hstorable : ∀ x ∈ bs ++ [b], x.Storable :=
    List.forall_mem_append.mpr ⟨hc.storable, List.forall_mem_singleton.mpr hb⟩
  by_cases hroom : bs.length < c.capacity
  · have hwhole : bs.take (first + bs.length - first) = bs := List.take_of_length_le (by omega)
    obtain ⟨c', hadd, hc'⟩ := hc.holds.add_of_extends (h := first + bs.length) (hc.encode_eq b)
      (by omega) (Nat.le_refl _) (by omega) (by rwa [hwhole])
    rw [hwhole] at hc'
    refine ⟨none, c', hadd, fun _ => rfl, ?_⟩
    rw [Nat.sub_eq_zero_of_le hroom]
    exact of_add hadd hc.codec hc' hstorable
  · obtain ⟨p, rest, rfl⟩ := List.exists_cons_of_ne_nil hc.holds.ne_nil
    have hfull : (p :: rest).length = c.capacity := by omega
    obtain ⟨c', hadd, hc'⟩ := hc.holds.add_of_extends_of_full (hc.encode_eq b) hfull hextends
    refine ⟨some first, c', hadd, fun h => absurd h hroom, ?_⟩
    rw [hfull, Nat.add_sub_cancel_left]
    exact of_add hadd hc.codec hc' fun x hx => hstorable x (List.mem_cons_of_mem p hx)

/-- A linked run is stored from the end of the cached blocks on, and the newest of all these blocks
are left. -/
theorem feed (hc : c.Stocked first bs) (hrs : ∀ b ∈ rs, b.Storable)
    (hlinked : CompactBlock.Linked (bs ++ rs)) :
    (∀ o ∈ c.outcomes (offersFrom (first + bs.length) rs), ∃ evicted,
        o = .ok (.stored evicted) ∧ (bs.length + rs.length ≤ c.capacity → evicted = none)) ∧
      (c.addAll (offersFrom (first + bs.length) rs)).Stocked
        (first + (bs.length + rs.length - c.capacity))
        ((bs ++ rs).drop (bs.length + rs.length - c.capacity)) := by
  induction rs generalizing c first bs with
  | nil =>
      have hbounded := hc.holds.bounded
      refine ⟨fun o ho => (List.not_mem_nil ho).elim, ?_⟩
      rw [List.append_nil, List.length_nil, Nat.add_zero, Nat.sub_eq_zero_of_le hbounded]
      exact hc
  | cons b rs ih =>
      obtain ⟨hb, hrs⟩ := List.forall_mem_cons.mp hrs
      have hbounded := hc.holds.bounded
      have hpos := c.capacity_pos
      obtain ⟨evicted, c', hadd, hevicted, hc'⟩ :=
        hc.add_next hb (CompactBlock.extendsLast_of_linked_append hlinked)
      have hcapacity : c'.capacity = c.capacity := by
        rw [← capacity_add (first + bs.length) b c, hadd]
      -- the run goes on at the end of what is left after the first block
      generalize hk : bs.length + 1 - c.capacity = k at hc'
      have hlength : ((bs ++ [b]).drop k).length = bs.length + 1 - k := by simp
      have hend : first + k + ((bs ++ [b]).drop k).length = first + bs.length + 1 := by omega
      have hrest : (bs ++ [b]).drop k ++ rs = (bs ++ b :: rs).drop k := by
        rw [List.append_cons bs b rs]
        exact (List.drop_append_of_le_length (by simp; omega)).symm
      have hstep := ih hc' hrs (by rw [hrest]; exact CompactBlock.linked_drop hlinked k)
      rw [hend, hrest, List.drop_drop, hlength, hcapacity, Nat.add_assoc first k] at hstep
      have htotal : k + (bs.length + 1 - k + rs.length - c.capacity) =
          bs.length + (b :: rs).length - c.capacity := by
        rw [List.length_cons]
        omega
      rw [htotal] at hstep
      rw [forall_outcomes_offersFrom_cons, addAll_offersFrom_cons, hadd]
      refine ⟨⟨⟨evicted, rfl, fun hle => hevicted ?_⟩, fun o ho => ?_⟩, hstep.2⟩
      · rw [List.length_cons] at hle
        omega
      · obtain ⟨evicted', ho', hnone⟩ := hstep.1 o ho
        refine ⟨evicted', ho', fun hle => hnone ?_⟩
        rw [List.length_cons] at hle
        omega

end Stocked

/-- A block that is stored lies on top of what was cached below it. -/
theorem exists_stocked_of_stored (hc : Sound CompactBlock.Storable c) (hcodec : c.codec = .standard)
    (hb : b.Storable) (hadd : c.add s b = (.ok (.stored evicted), c')) :
    ∃ first old, c'.Stocked first (old ++ [b]) ∧ first + old.length = s ∧
      old.length + 1 = min c.capacity (c.heightsBelow s + 1) ∧
      ∀ g x, blockAt? first old g = some x → c.get g = .ok (some x) := by
  have hpos := c.capacity_pos
  have hencode : c.codec.encode b = .ok (Encoding.encode b) := by
    rw [hcodec]
    rfl
  have hsingle (hc' : c'.Holds s [b]) : c'.Stocked s ([] ++ [b]) :=
    .of_add hadd hcodec hc' (List.forall_mem_singleton.mpr hb)
  have hnothing (g : Nat) (x : CompactBlock) (hx : blockAt? s [] g = some x) :
      c.get g = .ok (some x) := by
    obtain ⟨-, hnil⟩ := blockAt?_eq_some_iff.mp hx
    cases hnil
  cases hc with
  | fresh hwindow hentries =>
      have hbelow : c.heightsBelow s = 0 := by
        rw [heightsBelow, bounds, hwindow]
        rfl
      obtain ⟨c₁, hadd₁, hc₁⟩ := add_of_fresh (h := s) hwindow hentries hencode
      rw [hadd] at hadd₁
      cases hadd₁
      refine ⟨s, [], hsingle hc₁, rfl, ?_, hnothing⟩
      rw [hbelow, List.length_nil]
      omega
  | @filled first bs holds hstorable =>
      have hc : c.Stocked first bs := ⟨holds, hcodec, hstorable⟩
      have hbelow : c.heightsBelow s = s - first := by rw [heightsBelow, holds.bounds_eq]
      have hbounded := holds.bounded
      have hlast := holds.length_pos
      have hkept {old : List CompactBlock} (hold : ∀ x ∈ old, x ∈ bs) :
          ∀ x ∈ old ++ [b], x.Storable :=
        List.forall_mem_append.mpr
          ⟨fun x hx => hstorable x (hold x hx), List.forall_mem_singleton.mpr hb⟩
      have hoffer := holds.offer hencode s
      rw [hadd] at hoffer
      cases hoffer with
      | below hlow hc' =>
          refine ⟨s, [], hsingle hc', rfl, ?_, hnothing⟩
          rw [hbelow, List.length_nil]
          omega
      | onTop hlow hhigh hroom _ hc' =>
          have hlength : (bs.take (s - first)).length = s - first :=
            List.length_take_of_le (by omega)
          refine ⟨first, _, .of_add hadd hcodec hc' (hkept fun _ => List.mem_of_mem_take),
            by omega, by omega, fun g x hx => hc.get_iff.mpr (blockAt?_take.mp hx).2⟩
      | pushOut hend hfull _ hc' =>
          have hlength : bs.tail.length = bs.length - 1 := List.length_tail
          refine ⟨first + 1, _, .of_add hadd hcodec hc' (hkept fun _ => List.mem_of_mem_tail),
            by omega, by omega, fun g x hx => hc.get_iff.mpr (blockAt?_tail.mp hx).2⟩

/-- The linked run from `s` on is cached as far as there is room for it, with as many of the blocks
below it as before and as there is room for. -/
structure Feeds (c : Cache) (s : Nat) (rs : List CompactBlock) (first : Nat) (c' : Cache) :
    Prop where
  size : first + min c.capacity (c.heightsBelow s + rs.length) = s + rs.length
  leaves : c.Leaves s first (s + rs.length - 1) c'
  run : ∀ i x, rs[i]? = some x → first ≤ s + i → c'.get (s + i) = .ok (some x)

/-- When the first block of a linked run is stored, all of them are, and the window afterwards ends
with the last one, with as many heights below as were there and as there is room for. Below the run
nothing has changed. -/
theorem feeds_of_stored (hc : c.Reachable) (hrs : ∀ x ∈ b :: rs, x.Storable)
    (hlinked : CompactBlock.Linked (b :: rs)) (hstored : (c.add s b).1 = .ok (.stored evicted)) :
    (∀ o ∈ c.outcomes (offersFrom s (b :: rs)), ∃ evicted, o = .ok (.stored evicted)) ∧
      ∃ first, c.Feeds s (b :: rs) first (c.addAll (offersFrom s (b :: rs))) := by
  obtain ⟨hb, hrest⟩ := List.forall_mem_cons.mp hrs
  generalize hadd : c.add s b = r at hstored
  obtain ⟨_, c₁⟩ := r
  obtain rfl := hstored
  obtain ⟨first, old, hc₁, hs, hsize, hold⟩ :=
    exists_stocked_of_stored hc.sound hc.codec_eq hb hadd
  have hcapacity : c₁.capacity = c.capacity := by
    rw [← capacity_add s b c, hadd]
  have hwhole : CompactBlock.Linked (old ++ [b] ++ rs) := by
    rw [← List.append_cons]
    exact CompactBlock.linked_append_cons hc₁.holds.linked hlinked
  obtain ⟨houtcomes, hfed⟩ := hc₁.feed hrest hwhole
  rw [List.length_append, List.length_singleton, ← Nat.add_assoc, hs, hcapacity] at houtcomes hfed
  rw [← List.append_cons] at hfed
  rw [forall_outcomes_offersFrom_cons, addAll_offersFrom_cons, hadd]
  refine ⟨⟨⟨evicted, rfl⟩, fun o ho => ?_⟩,
    first + (old.length + 1 + rs.length - c.capacity), ?_⟩
  · obtain ⟨evicted', ho', -⟩ := houtcomes o ho
    exact ⟨evicted', ho'⟩
  generalize hk : old.length + 1 + rs.length - c.capacity = k at hfed
  have hlength : ((old ++ b :: rs).drop k).length = old.length + (rs.length + 1) - k := by simp
  have hlast : first + k + ((old ++ b :: rs).drop k).length - 1 = s + (b :: rs).length - 1 := by
    rw [List.length_cons]
    omega
  have hfilled := hfed.filled
  rw [hlast] at hfilled
  constructor
  · rw [List.length_cons]
    omega
  · refine hfilled.leaves fun g x hg hx => ?_
    obtain ⟨-, hx⟩ := blockAt?_drop.mp (hfed.get_iff.mp hx)
    rcases blockAt?_append.mp hx with hx | hx
    · exact hold g x hx
    · have hin := exists_blockAt?_iff.mp ⟨x, hx⟩
      omega
  · intro i x hx hlow
    refine hfed.get_iff.mpr (blockAt?_drop.mpr ⟨hlow, blockAt?_append.mpr (.inr ?_)⟩)
    rw [hs, blockAt?_eq_some_iff, Nat.add_sub_cancel_left]
    exact ⟨Nat.le_add_right s i, hx⟩

def trunkBlocks : List CompactBlock :=
  [Sample.marked 4 4 3, Sample.marked 5 5 4, Sample.marked 6 6 5]

def branchBlocks : List CompactBlock := [Sample.marked 6 16 5, Sample.marked 7 17 16]

def trunkCache : Cache := (empty .standard 3).addAll (offersFrom 4 trunkBlocks)

theorem linked_trunkBlocks : CompactBlock.Linked trunkBlocks :=
  CompactBlock.linked_cons rfl (CompactBlock.linked_cons rfl (CompactBlock.linked_singleton _))

theorem reachable_trunkCache : trunkCache.Reachable := by
  refine ⟨3, offersFrom 4 trunkBlocks, ?_, rfl⟩
  simp [offersFrom, trunkBlocks, Sample.storable_marked]

theorem stocked_trunkCache : trunkCache.Stocked 4 trunkBlocks := by
  obtain ⟨c, hadd, hc⟩ := add_of_fresh (c := empty .standard 3) (h := 4)
    (b := Sample.marked 4 4 3) rfl rfl rfl
  have hstocked : c.Stocked 4 [Sample.marked 4 4 3] :=
    .of_add hadd rfl hc (List.forall_mem_singleton.mpr (Sample.storable_marked 4 4 3))
  have hcapacity : c.capacity = 3 := by
    have h := capacity_add 4 (Sample.marked 4 4 3) (empty .standard 3)
    rw [hadd] at h
    exact h
  have hrest : ∀ b ∈ [Sample.marked 5 5 4, Sample.marked 6 6 5], b.Storable := by
    simp [Sample.storable_marked]
  have hlast := (hstocked.feed hrest linked_trunkBlocks).2
  have hrun : trunkCache = c.addAll (offersFrom 5 [Sample.marked 5 5 4, Sample.marked 6 6 5]) := by
    rw [trunkCache, trunkBlocks, addAll_offersFrom_cons, hadd]
  rw [hrun]
  rw [hcapacity] at hlast
  exact hlast

/-- A branch of two blocks replaces the last of three and pushes out the first. -/
theorem feeds_of_stored_of_branch :
    trunkCache.Reachable ∧ (∀ x ∈ branchBlocks, x.Storable) ∧ CompactBlock.Linked branchBlocks ∧
      (trunkCache.add 6 (Sample.marked 6 16 5)).1 = .ok (.stored none) ∧
      trunkCache.capacity = 3 ∧ trunkCache.heightsBelow 6 = 2 ∧
      (∀ o ∈ trunkCache.outcomes (offersFrom 6 branchBlocks), ∃ evicted,
        o = .ok (.stored evicted)) ∧
      trunkCache.Feeds 6 branchBlocks 5 (trunkCache.addAll (offersFrom 6 branchBlocks)) := by
  have hstorable : ∀ x ∈ branchBlocks, x.Storable := by
    simp [branchBlocks, Sample.storable_marked]
  have hlinked : CompactBlock.Linked branchBlocks :=
    CompactBlock.linked_cons rfl (CompactBlock.linked_singleton _)
  have hcapacity : trunkCache.capacity = 3 := capacity_addAll _ _
  have hbelow : trunkCache.heightsBelow 6 = 2 := by
    rw [heightsBelow, stocked_trunkCache.holds.bounds_eq]
  obtain ⟨c', hadd, -⟩ := stocked_trunkCache.holds.add_of_extends (h := 6)
    (stocked_trunkCache.encode_eq (Sample.marked 6 16 5)) (by decide) (by decide)
    (by rw [hcapacity]; decide) (by rintro p ⟨⟩; rfl)
  have hstored : (trunkCache.add 6 (Sample.marked 6 16 5)).1 = .ok (.stored none) := by
    rw [hadd]
  obtain ⟨houtcomes, first, hfeeds⟩ :=
    feeds_of_stored reachable_trunkCache hstorable hlinked hstored
  have hfirst : first = 5 := by
    have hsize := hfeeds.size
    rw [hcapacity, hbelow] at hsize
    exact Nat.add_right_cancel hsize
  subst hfirst
  exact ⟨reachable_trunkCache, hstorable, hlinked, hstored, hcapacity, hbelow, houtcomes, hfeeds⟩

end Cache

end LightServer
