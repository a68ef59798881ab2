import LightServer.Proofs.Cache.Feeding

/-!
# Offering cached blocks again

Going back by some heights and taking in the same blocks once more leads to where
it began. The first block that is offered again cuts off everything from its
height on, but each cached block extends the one below it, so all that was cut
off comes back, and there was room for it before. The run of blocks that a cache
holds determines its entries, so the cache that comes out is the same one, and
not only one that gives the same blocks.
-/

namespace LightServer

theorem EntryCodec.Keeps.unique {k : EntryCodec} {b : CompactBlock} {e e' : Entry}
    (he : k.Keeps b e) (he' : k.Keeps b e') : e = e' := by
  obtain ⟨hencode, hhash⟩ := he
  obtain ⟨hencode', hhash'⟩ := he'
  rw [hencode] at hencode'
  cases e
  cases e'
  cases hencode'
  cases hhash
  cases hhash'
  rfl

namespace Cache

variable {k : EntryCodec} {c c' : Cache} {first last h : Nat} {bs rs : List CompactBlock}
  {m m' : Entries}

theorem length_outcomes (offers : List (Nat × CompactBlock)) (c : Cache) :
    (c.outcomes offers).length = offers.length := by
  induction offers generalizing c with
  | nil => rfl
  | cons p offers ih => rw [outcomes, List.length_cons, ih, List.length_cons]

theorem length_offersFrom (h : Nat) (bs : List CompactBlock) :
    (offersFrom h bs).length = bs.length := by
  induction bs generalizing h with
  | nil => rfl
  | cons b bs ih => rw [offersFrom, List.length_cons, ih, List.length_cons]

/-- The blocks and the height of the first one determine all entries. -/
theorem Spans.unique (hm : Spans k first bs m) (hm' : Spans k first bs m') : m = m' := by
  apply Std.ExtTreeMap.ext_getElem?
  intro g
  by_cases hin : first ≤ g ∧ g < first + bs.length
  · have hlt : g - first < bs.length := by omega
    have hb : bs[g - first]? = some bs[g - first] := List.getElem?_eq_getElem hlt
    obtain ⟨e, he, hkeeps⟩ := hm.kept _ _ hb
    obtain ⟨e', he', hkeeps'⟩ := hm'.kept _ _ hb
    rw [Nat.add_sub_cancel' hin.1] at he he'
    rw [he, he', hkeeps.unique hkeeps']
  · have hout : g < first ∨ first + bs.length ≤ g := by omega
    rw [hm.outside g hout, hm'.outside g hout]

/-- Two caches of one kind that hold the same blocks are the same. -/
theorem Holds.unique (hc : c.Holds first bs) (hc' : c'.Holds first bs)
    (hcodec : c.codec = c'.codec) (hcapacity : c.capacity = c'.capacity) : c = c' := by
  have hwindow : c.window = c'.window := hc.window.trans hc'.window.symm
  have hentries : c.entries = c'.entries := hc.spans.unique (hcodec ▸ hc'.spans)
  cases c
  cases c'
  cases hcodec
  cases hcapacity
  cases hwindow
  cases hentries
  rfl

/-- The blocks are what the cache gives at the heights from `h` to `last`, in order. -/
structure Shows (c : Cache) (h last : Nat) (rs : List CompactBlock) : Prop where
  length_eq : rs.length = last + 1 - h
  get : ∀ i b, rs[i]? = some b → c.get (h + i) = .ok (some b)

namespace Stocked

theorem shows_iff (hc : c.Stocked first bs) (hlow : first ≤ h)
    (hlast : last + 1 = first + bs.length) : c.Shows h last rs ↔ rs = bs.drop (h - first) := by
  have hget {i : Nat} {b : CompactBlock} :
      c.get (h + i) = .ok (some b) ↔ (bs.drop (h - first))[i]? = some b := by
    rw [hc.get_iff, blockAt?_eq_some_iff, List.getElem?_drop, Nat.sub_add_comm hlow,
      and_iff_right (by omega)]
  have hlength : (bs.drop (h - first)).length = last + 1 - h := by
    rw [List.length_drop]
    omega
  constructor
  · intro hshows
    refine List.ext_getElem (hshows.length_eq.trans hlength.symm) fun i hi hi' => ?_
    have hb := hget.mp (hshows.get i _ (List.getElem?_eq_getElem hi))
    rw [List.getElem?_eq_getElem hi'] at hb
    exact (Option.some.inj hb).symm
  · rintro rfl
    exact ⟨hlength, fun i b => hget.mpr⟩

/-- Within the cached heights a run of blocks is put in place of the ones from a height on, if there
is room for it without an eviction. -/
theorem replace {b : CompactBlock} (hc : c.Stocked first bs) (hlow : first ≤ h)
    (hhigh : h ≤ first + bs.length) (hrs : ∀ x ∈ b :: rs, x.Storable)
    (hlinked : CompactBlock.Linked (bs.take (h - first) ++ b :: rs))
    (hroom : h - first + (b :: rs).length ≤ c.capacity) :
    (∀ o ∈ c.outcomes (offersFrom h (b :: rs)), o = .ok (.stored none)) ∧
      (c.addAll (offersFrom h (b :: rs))).Stocked first (bs.take (h - first) ++ b :: rs) := by
  obtain ⟨hb, hrest⟩ := List.forall_mem_cons.mp hrs
  rw [List.length_cons] at hroom
  have hlength : (bs.take (h - first)).length = h - first := List.length_take_of_le (by omega)
  obtain ⟨c₁, hadd, hc₁⟩ := hc.holds.add_of_extends (hc.encode_eq b) hlow hhigh (by omega)
    (CompactBlock.extendsLast_of_linked_append hlinked)
  have hstocked : c₁.Stocked first (bs.take (h - first) ++ [b]) :=
    .of_add hadd hc.codec hc₁ (List.forall_mem_append.mpr
      ⟨fun x hx => hc.storable x (List.mem_of_mem_take hx), List.forall_mem_singleton.mpr hb⟩)
  have hcapacity : c₁.capacity = c.capacity := by
    rw [← capacity_add h b c, hadd]
  have hend : first + (bs.take (h - first) ++ [b]).length = h + 1 := by
    rw [List.length_append, List.length_singleton]
    omega
  rw [List.append_cons] at hlinked
  obtain ⟨houtcomes, hfed⟩ := hstocked.feed hrest hlinked
  have hsize : (bs.take (h - first) ++ [b]).length + rs.length ≤ c₁.capacity := by
    rw [List.length_append, List.length_singleton]
    omega
  rw [hend] at houtcomes hfed
  rw [Nat.sub_eq_zero_of_le hsize, List.drop_zero, ← List.append_cons] at hfed
  rw [forall_outcomes_offersFrom_cons, addAll_offersFrom_cons, hadd]
  refine ⟨⟨rfl, fun o ho => ?_⟩, hfed⟩
  obtain ⟨evicted, ho', hnone⟩ := houtcomes o ho
  rw [ho', hnone hsize]

end Stocked

/-- Offering again, in order, what is cached from some height on stores every block without an
eviction and leaves the cache exactly as it was. -/
theorem addAll_eq_self_of_shows (hc : c.Reachable) (hbounds : c.bounds = some (first, last))
    (hlow : first ≤ h) (hhigh : h ≤ last) :
    (∃ rs, c.Shows h last rs) ∧ ∀ rs, c.Shows h last rs →
      c.outcomes (offersFrom h rs) = List.replicate (last + 1 - h) (.ok (.stored none)) ∧
        c.addAll (offersFrom h rs) = c := by
  cases hc.sound with
  | fresh hwindow hentries =>
      rw [bounds, hwindow] at hbounds
      cases hbounds
  | @filled first' bs holds hstorable =>
      have hstocked : c.Stocked first' bs := ⟨holds, hc.codec_eq, hstorable⟩
      have hpos := holds.length_pos
      rw [holds.bounds_eq] at hbounds
      cases hbounds
      have hlast : first + bs.length - 1 + 1 = first + bs.length := by omega
      refine ⟨⟨_, (hstocked.shows_iff hlow hlast).mpr rfl⟩, fun rs hshows => ?_⟩
      have hlength := hshows.length_eq
      obtain rfl := (hstocked.shows_iff hlow hlast).mp hshows
      have hwhole : bs.take (h - first) ++ bs.drop (h - first) = bs := List.take_append_drop _ _
      have hdropped : ∀ x ∈ bs.drop (h - first), x.Storable := fun x hx =>
        hstorable x (List.mem_of_mem_drop hx)
      generalize hrs : bs.drop (h - first) = rs at hlength hwhole hdropped
      have hsome : 0 < rs.length := by omega
      obtain ⟨b, rest, rfl⟩ := List.exists_cons_of_length_pos hsome
      have hbounded := holds.bounded
      obtain ⟨houtcomes, hlater⟩ := hstocked.replace hlow (by omega) hdropped
        (hwhole.symm ▸ holds.linked) (by omega)
      rw [hwhole] at hlater
      refine ⟨List.eq_replicate_iff.mpr ⟨?_, houtcomes⟩, hlater.holds.unique holds
        (codec_addAll _ c) (capacity_addAll _ c)⟩
      rw [length_outcomes, length_offersFrom, hlength]

/-- All but the first of three cached blocks can be offered again. -/
theorem addAll_eq_self_of_shows_trunk :
    trunkCache.Reachable ∧ trunkCache.bounds = some (4, 6) ∧
      trunkCache.Shows 5 6 (trunkBlocks.drop 1) ∧
      trunkCache.outcomes (offersFrom 5 (trunkBlocks.drop 1)) =
        [.ok (.stored none), .ok (.stored none)] ∧
      trunkCache.addAll (offersFrom 5 (trunkBlocks.drop 1)) = trunkCache := by
  have hshows : trunkCache.Shows 5 6 (trunkBlocks.drop 1) :=
    (stocked_trunkCache.shows_iff (by decide) rfl).mpr rfl
  obtain ⟨-, hall⟩ := addAll_eq_self_of_shows reachable_trunkCache
    stocked_trunkCache.holds.bounds_eq (h := 5) (by decide) (by decide)
  obtain ⟨houtcomes, hsame⟩ := hall _ hshows
  exact ⟨reachable_trunkCache, stocked_trunkCache.holds.bounds_eq, hshows, houtcomes, hsame⟩

end Cache

end LightServer
