import LightServer.Proofs.Cache.Holding

/-!
# Offering a block

What `Cache.add` does to a cache that holds a run of blocks, case by case: the
height lies below the run, within it or at its end, or beyond a gap. Within the
run the outcome hangs on the block that is then the last one below the height.
The state that comes out is given as the run that it holds, so nothing else has
to look into the window or the map again.
-/

namespace LightServer

namespace Cache

variable {k : EntryCodec} {c : Cache} {first h : Nat} {bs : List CompactBlock} {b : CompactBlock}
  {m : Entries} {e : Entry} {data : Bytes}

@[simp] theorem capacity_empty (k : EntryCodec) (n : Nat) : (empty k n).capacity = max n 1 := rfl

theorem get_of_entries (hentries : c.entries = ∅) (h : Nat) : c.get h = .ok none := by
  unfold get
  rw [hentries, Std.ExtTreeMap.getElem?_empty]

theorem codec_add (h : Nat) (b : CompactBlock) (c : Cache) : (c.add h b).2.codec = c.codec := by
  unfold add
  split
  · rfl
  · split
    · rfl
    · split <;> rfl

theorem capacity_add (h : Nat) (b : CompactBlock) (c : Cache) :
    (c.add h b).2.capacity = c.capacity := by
  unfold add
  split
  · rfl
  · split
    · rfl
    · split <;> rfl

theorem codec_eq_of_add {c' : Cache} {r : Except CacheError AddOutcome}
    (hadd : c.add h b = (r, c')) : c'.codec = c.codec := by
  rw [← codec_add h b c, hadd]

/-- A block that the codec refuses leaves the cache as it is. -/
theorem add_of_encode_error {err : CodecError} (herr : c.codec.encode b = .error err) :
    c.add h b = (.error (.encoding h err), c) := by
  unfold add
  rw [herr]

theorem store_of_room (hm : Spans c.codec first bs m) (he : c.codec.Keeps b e)
    (hlinked : CompactBlock.Linked bs) (hb : b.ExtendsLast bs) (hroom : bs.length < c.capacity) :
    ∃ c', store (first + bs.length) e (Window.span first bs.length) m c =
        (.ok (.stored none), c') ∧ c'.Holds first (bs ++ [b]) := by
  unfold store evict
  rw [Window.push_span, if_pos (Window.bounded_span.mpr hroom)]
  refine ⟨_, rfl, ?_⟩
  exact {
    window := by rw [List.length_append, List.length_singleton]
    spans := hm.concat he
    ne_nil := by simp
    bounded := by rwa [List.length_append, List.length_singleton]
    linked := CompactBlock.linked_concat hlinked hb }

theorem store_of_full {p : CompactBlock} (hm : Spans c.codec first (p :: bs) m)
    (he : c.codec.Keeps b e) (hlinked : CompactBlock.Linked (p :: bs))
    (hb : b.ExtendsLast (p :: bs)) (hfull : (p :: bs).length = c.capacity) :
    ∃ c', store (first + (p :: bs).length) e (Window.span first (p :: bs).length) m c =
        (.ok (.stored (some first)), c') ∧ c'.Holds (first + 1) (bs ++ [b]) := by
  have hunbounded : ¬ (Window.span first ((p :: bs).length + 1)).Bounded c.capacity := by
    rw [Window.bounded_span]
    omega
  unfold store evict
  rw [Window.push_span, if_neg hunbounded, Window.pop_span_succ]
  refine ⟨_, rfl, ?_⟩
  have hwhole : CompactBlock.Linked (p :: (bs ++ [b])) := CompactBlock.linked_concat hlinked hb
  exact {
    window := by rw [List.length_append, List.length_singleton, List.length_cons]
    spans := (hm.concat he).tail
    ne_nil := by simp
    bounded := by
      rw [List.length_append, List.length_singleton]
      exact Nat.le_of_eq hfull
    linked := CompactBlock.linked_tail hwhole }

/-- A cache that has just been emptied for a height takes any block there. -/
theorem store_primed (h : Nat) (he : c.codec.Keeps b e) :
    ∃ c', store h e (Window.primed h) ∅ c = (.ok (.stored none), c') ∧ c'.Holds h [b] :=
  store_of_room (spans_nil c.codec h) he CompactBlock.linked_nil (CompactBlock.extendsLast_nil b)
    c.capacity_pos

theorem fitsAbove_empty (h : Nat) (b : CompactBlock) : fitsAbove h b ∅ = true := by
  have hfits := (spans_nil EntryCodec.standard h).fitsAbove_iff b
  exact hfits.mpr (CompactBlock.extendsLast_nil b)

/-- The first block is stored, whatever its height and its parent. -/
theorem add_of_fresh (hwindow : c.window = none) (hentries : c.entries = ∅)
    (hdata : c.codec.encode b = .ok data) :
    ∃ c', c.add h b = (.ok (.stored none), c') ∧ c'.Holds h [b] := by
  have hroom : makeRoom h (Window.primed h) ∅ = .ok (Window.primed h, ∅) := by
    unfold makeRoom
    simp [Window.mem_def]
  unfold add
  simp only [hdata, hwindow, hentries, Option.getD_none, hroom, fitsAbove_empty, if_true]
  exact store_primed h ⟨hdata, rfl⟩

/-- A block below the run replaces it, whatever its parent. -/
theorem Holds.add_below (hc : c.Holds first bs) (hdata : c.codec.encode b = .ok data)
    (hlow : h < first) :
    ∃ c', c.add h b = (.ok (.stored none), c') ∧ c'.Holds h [b] := by
  unfold add
  simp only [hdata, hc.window, Option.getD_some, makeRoom, Window.first_span, if_pos hlow,
    fitsAbove_empty, if_true]
  exact store_primed h ⟨hdata, rfl⟩

/-- A block beyond a gap is refused, and the cache stays as it is. -/
theorem Holds.add_gap (hc : c.Holds first bs) (hdata : c.codec.encode b = .ok data)
    (hgap : first + bs.length < h) :
    c.add h b = (.error (.heightGap (first + bs.length) h), c) := by
  have hlow : ¬ h < first := by omega
  have hout : ¬ h ∈ Window.span first bs.length := by
    rw [Window.mem_span]
    omega
  unfold add
  simp only [hdata, hc.window, Option.getD_some, makeRoom, Window.first_span, Window.next_span,
    if_neg hlow, if_neg hout, if_pos hgap]

/-- Making room within the run or at its end cuts off the blocks from the height on. -/
theorem Holds.makeRoom_eq (hc : c.Holds first bs) (hlow : first ≤ h)
    (hhigh : h ≤ first + bs.length) :
    ∃ m, makeRoom h (Window.span first bs.length) c.entries =
        .ok (Window.span first (h - first), m) ∧ Spans c.codec first (bs.take (h - first)) m := by
  unfold makeRoom
  rw [Window.first_span, Window.next_span, if_neg (Nat.not_lt.mpr hlow)]
  by_cases hin : h < first + bs.length
  · have hspans := hc.spans.take (h - first) (by omega)
    rw [Nat.add_sub_cancel' hlow] at hspans
    rw [if_pos (Window.mem_span.mpr ⟨hlow, hin⟩), Window.truncate_span hlow]
    exact ⟨_, rfl, hspans⟩
  · have hend : h - first = bs.length := by omega
    have hout : ¬ h ∈ Window.span first bs.length := by
      rw [Window.mem_span]
      omega
    rw [if_neg hout, if_neg (by omega), hend, List.take_length]
    exact ⟨c.entries, rfl, hc.spans⟩

/-- What offering a block comes to within the run or at its end: the block goes on top of
the blocks below its height, if it extends the last of them. -/
theorem Holds.add_eq (hc : c.Holds first bs) (hdata : c.codec.encode b = .ok data)
    (hlow : first ≤ h) (hhigh : h ≤ first + bs.length) :
    ∃ m, Spans c.codec first (bs.take (h - first)) m ∧
      (b.ExtendsLast (bs.take (h - first)) →
        c.add h b = store h ⟨data, b.hash⟩ (Window.span first (h - first)) m c) ∧
      (¬ b.ExtendsLast (bs.take (h - first)) →
        c.add h b = (.ok .reorgDetected,
          { c with window := some (Window.span first (h - first)), entries := m })) := by
  obtain ⟨m, hroom, hm⟩ := hc.makeRoom_eq hlow hhigh
  have hlength : (bs.take (h - first)).length = h - first := List.length_take_of_le (by omega)
  have hfits : fitsAbove h b m = true ↔ b.ExtendsLast (bs.take (h - first)) := by
    rw [← hm.fitsAbove_iff b, hlength, Nat.add_sub_cancel' hlow]
  refine ⟨m, hm, ?_, ?_⟩
  · intro hb
    unfold add
    simp only [hdata, hc.window, Option.getD_some, hroom, if_pos (hfits.mpr hb)]
  · intro hb
    unfold add
    simp only [hdata, hc.window, Option.getD_some, hroom, if_neg (mt hfits.mp hb)]

/-- A block that extends the last block below its height is put there. Nothing is lost at
the front as long as there is room. -/
theorem Holds.add_of_extends (hc : c.Holds first bs) (hdata : c.codec.encode b = .ok data)
    (hlow : first ≤ h) (hhigh : h ≤ first + bs.length) (hroom : h - first < c.capacity)
    (hb : b.ExtendsLast (bs.take (h - first))) :
    ∃ c', c.add h b = (.ok (.stored none), c') ∧ c'.Holds first (bs.take (h - first) ++ [b]) := by
  obtain ⟨m, hm, hstore, -⟩ := hc.add_eq hdata hlow hhigh
  have hlength : (bs.take (h - first)).length = h - first := List.length_take_of_le (by omega)
  have h' := store_of_room (e := ⟨data, b.hash⟩) hm ⟨hdata, rfl⟩
    (CompactBlock.linked_take hc.linked _) hb (by omega)
  rw [hlength, Nat.add_sub_cancel' hlow] at h'
  rw [hstore hb]
  exact h'

/-- A block that extends the last block of a full cache pushes out the first one. -/
theorem Holds.add_of_extends_of_full {p : CompactBlock} (hc : c.Holds first (p :: bs))
    (hdata : c.codec.encode b = .ok data) (hfull : (p :: bs).length = c.capacity)
    (hb : b.ExtendsLast (p :: bs)) :
    ∃ c', c.add (first + (p :: bs).length) b = (.ok (.stored (some first)), c') ∧
      c'.Holds (first + 1) (bs ++ [b]) := by
  obtain ⟨m, hm, hstore, -⟩ := hc.add_eq hdata (Nat.le_add_right _ _) (Nat.le_refl _)
  rw [Nat.add_sub_cancel_left, List.take_length] at hm hstore
  rw [hstore hb]
  exact store_of_full hm ⟨hdata, rfl⟩ hc.linked hb hfull

/-- A block that does not extend the last block below its height is a reorg, and only the
blocks below its height are left. -/
theorem Holds.add_of_not_extends (hc : c.Holds first bs) (hdata : c.codec.encode b = .ok data)
    (hlow : first ≤ h) (hhigh : h ≤ first + bs.length)
    (hb : ¬ b.ExtendsLast (bs.take (h - first))) :
    ∃ c', c.add h b = (.ok .reorgDetected, c') ∧ c'.Holds first (bs.take (h - first)) := by
  obtain ⟨m, hm, -, hreorg⟩ := hc.add_eq hdata hlow hhigh
  have hlength : (bs.take (h - first)).length = h - first := List.length_take_of_le (by omega)
  refine ⟨_, hreorg hb, ?_⟩
  exact {
    window := by rw [hlength]
    spans := hm
    ne_nil := by
      intro hnil
      rw [hnil] at hb
      exact hb (CompactBlock.extendsLast_nil b)
    bounded := by
      rw [hlength]
      exact Nat.le_trans (by omega) hc.bounded
    linked := CompactBlock.linked_take hc.linked _ }

/-- What an offer to a cache that holds the blocks `bs` from `first` on can come to. -/
inductive Offer (first : Nat) (bs : List CompactBlock) (h : Nat) (b : CompactBlock) (c : Cache) :
    Except CacheError AddOutcome × Cache → Prop where
  | below {c' : Cache} (hlow : h < first) (hc' : c'.Holds h [b]) :
      Offer first bs h b c (.ok (.stored none), c')
  | onTop {c' : Cache} (hlow : first ≤ h) (hhigh : h ≤ first + bs.length)
      (hroom : h - first < c.capacity) (hb : b.ExtendsLast (bs.take (h - first)))
      (hc' : c'.Holds first (bs.take (h - first) ++ [b])) :
      Offer first bs h b c (.ok (.stored none), c')
  | pushOut {c' : Cache} (hend : h = first + bs.length) (hfull : bs.length = c.capacity)
      (hb : b.ExtendsLast bs) (hc' : c'.Holds (first + 1) (bs.tail ++ [b])) :
      Offer first bs h b c (.ok (.stored (some first)), c')
  | reorg {c' : Cache} (hlow : first ≤ h) (hhigh : h ≤ first + bs.length)
      (hb : ¬ b.ExtendsLast (bs.take (h - first)))
      (hc' : c'.Holds first (bs.take (h - first))) :
      Offer first bs h b c (.ok .reorgDetected, c')
  | gap (hgap : first + bs.length < h) :
      Offer first bs h b c (.error (.heightGap (first + bs.length) h), c)

/-- Every offer that the codec does not refuse comes to one of these. -/
theorem Holds.offer (hc : c.Holds first bs) (hdata : c.codec.encode b = .ok data) (h : Nat) :
    Offer first bs h b c (c.add h b) := by
  by_cases hlow : h < first
  · obtain ⟨c', hadd, hc'⟩ := hc.add_below hdata hlow
    rw [hadd]
    exact Offer.below hlow hc'
  by_cases hgap : first + bs.length < h
  · rw [hc.add_gap hdata hgap]
    exact Offer.gap hgap
  have hlow' : first ≤ h := Nat.not_lt.mp hlow
  have hhigh : h ≤ first + bs.length := Nat.not_lt.mp hgap
  by_cases hb : b.ExtendsLast (bs.take (h - first))
  · by_cases hroom : h - first < c.capacity
    · obtain ⟨c', hadd, hc'⟩ := hc.add_of_extends hdata hlow' hhigh hroom hb
      rw [hadd]
      exact Offer.onTop hlow' hhigh hroom hb hc'
    · have hbounded := hc.bounded
      have hend : h = first + bs.length := by omega
      have hfull : bs.length = c.capacity := by omega
      rw [hend, Nat.add_sub_cancel_left, List.take_length] at hb
      obtain ⟨p, rest, rfl⟩ := List.exists_cons_of_ne_nil hc.ne_nil
      obtain ⟨c', hadd, hc'⟩ := hc.add_of_extends_of_full hdata hfull hb
      rw [hend, hadd]
      exact Offer.pushOut rfl hfull hb hc'
  · obtain ⟨c', hadd, hc'⟩ := hc.add_of_not_extends hdata hlow' hhigh hb
    rw [hadd]
    exact Offer.reorg hlow' hhigh hb hc'

/-- A block that extends what is cached just below its height, if anything is, is stored, and
what stays cached below keeps its place. -/
theorem Holds.add_of_fits (hc : c.Holds first bs) (hdata : c.codec.encode b = .ok data)
    (hhigh : h ≤ first + bs.length)
    (hfits : ∀ g x, h = g + 1 → blockAt? first bs g = some x → b.Extends x.hash) :
    ∃ evicted c' first' bs', c.add h b = (.ok (.stored evicted), c') ∧ c'.Holds first' bs' ∧
      first' + bs'.length = h + 1 ∧ ∀ g x, blockAt? first' bs' g = some x →
        (g = h ∧ x = b) ∨ (g < h ∧ blockAt? first bs g = some x) := by
  have hoffer := hc.offer hdata h
  generalize c.add h b = r at hoffer ⊢
  cases hoffer with
  | @below c' hlow hc' =>
      exact ⟨none, c', h, [b], rfl, hc', rfl, fun g x hx =>
        Or.inl (blockAt?_singleton_eq_some_iff.mp hx)⟩
  | @onTop c' hlow _ hroom _ hc' =>
      have hlength : (bs.take (h - first)).length = h - first :=
        List.length_take_of_le (by omega)
      refine ⟨none, c', first, _, rfl, hc', ?_, fun g x hx => ?_⟩
      · rw [List.length_append, hlength, List.length_singleton]
        omega
      · rw [blockAt?_concat, blockAt?_take, hlength, Nat.add_sub_cancel' hlow] at hx
        exact hx.symm
  | @pushOut c' hend hfull _ hc' =>
      have hpos := hc.length_pos
      refine ⟨some first, c', first + 1, _, rfl, hc', ?_, fun g x hx => ?_⟩
      · rw [List.length_append, List.length_tail, List.length_singleton]
        omega
      · rw [blockAt?_concat, blockAt?_tail, List.length_tail] at hx
        rcases hx with ⟨-, hx⟩ | ⟨hg, rfl⟩
        · have hin := exists_blockAt?_iff.mp ⟨_, hx⟩
          exact Or.inr ⟨by omega, hx⟩
        · exact Or.inl ⟨by omega, rfl⟩
  | reorg hlow _ hb _ => exact absurd ((extendsLast_take_iff hlow hhigh).mpr hfits) hb
  | gap hgap => omega

/-- A block that does not extend what is cached just below its height is a reorg, and the
cache keeps what it has below. -/
theorem Holds.add_of_misfit {p : CompactBlock} (hc : c.Holds first bs)
    (hdata : c.codec.encode b = .ok data) (hp : blockAt? first bs h = some p)
    (hb : ¬ b.Extends p.hash) :
    ∃ c' bs', c.add (h + 1) b = (.ok .reorgDetected, c') ∧ c'.Holds first bs' ∧
      first + bs'.length = h + 1 ∧ ∀ g x, blockAt? first bs' g = some x ↔
        g < h + 1 ∧ blockAt? first bs g = some x := by
  have hin := exists_blockAt?_iff.mp ⟨_, hp⟩
  have hlength : (bs.take (h + 1 - first)).length = h + 1 - first :=
    List.length_take_of_le (by omega)
  have hmisfit : ¬ b.ExtendsLast (bs.take (h + 1 - first)) := by
    intro hlast
    exact hb ((extendsLast_take_iff (by omega) (by omega)).mp hlast h p rfl hp)
  obtain ⟨c', hadd, hc'⟩ := hc.add_of_not_extends hdata (by omega) (by omega) hmisfit
  refine ⟨c', _, hadd, hc', ?_, fun g x => ?_⟩
  · rw [hlength]
    omega
  · rw [blockAt?_take, Nat.add_sub_cancel' (by omega)]

end Cache

end LightServer
