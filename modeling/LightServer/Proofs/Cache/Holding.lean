import LightServer.Cache.Basic
import LightServer.Proofs.Chain.Linked

/-!
# What a cache holds

`c.Holds first bs` says that the cache `c` holds the blocks `bs`, and nothing
else, at the heights from `first` on: its window spans those heights, its map
has an entry for each of them and no other, and the blocks are linked and fit
in the cache. Offering a block is described on that list. The blocks from its
height on are cut off, then the block is put at the end if it extends what is
left, and the first block goes when there is one too many.
-/

namespace LightServer

def EntryCodec.Keeps (k : EntryCodec) (b : CompactBlock) (e : Entry) : Prop :=
  k.encode b = .ok e.data ∧ e.hash = b.hash

def EntryCodec.Faithful (k : EntryCodec) (b : CompactBlock) : Prop :=
  ∀ data, k.encode b = .ok data → k.decode data = .ok b

namespace Window

def span (first n : Nat) : Window := ⟨first, first + n, Nat.le_add_right _ _⟩

@[simp] theorem first_span (first n : Nat) : (span first n).first = first := rfl

@[simp] theorem next_span (first n : Nat) : (span first n).next = first + n := rfl

@[simp] theorem length_span (first n : Nat) : (span first n).length = n :=
  Nat.add_sub_cancel_left first n

theorem mem_span {first n h : Nat} : h ∈ span first n ↔ first ≤ h ∧ h < first + n := Iff.rfl

theorem bounded_span {first n limit : Nat} : (span first n).Bounded limit ↔ n ≤ limit := by
  rw [Bounded, length_span]

@[simp] theorem push_span (first n : Nat) : (span first n).push = span first (n + 1) := rfl

@[simp] theorem pop_span_succ (first n : Nat) :
    (span first (n + 1)).pop = some (first, span (first + 1) n) := by
  have hlt : (span first (n + 1)).first < (span first (n + 1)).next := by
    rw [first_span, next_span]
    omega
  have hnext : first + (n + 1) = first + 1 + n := by omega
  unfold pop
  rw [dif_pos hlt]
  simp [span, hnext]

theorem last?_span {first n : Nat} (hn : 0 < n) : (span first n).last? = some (first + n - 1) := by
  unfold last?
  rw [if_pos (by rw [first_span, next_span]; omega), next_span]

theorem truncate_span {first n h : Nat} (hlow : first ≤ h) :
    (span first n).truncate h = span first (h - first) := by
  simp only [truncate, span, mk.injEq, true_and]
  omega

end Window

namespace Cache

/-- The map has exactly the entries of the blocks `bs`, at the heights from `first` on. -/
structure Spans (k : EntryCodec) (first : Nat) (bs : List CompactBlock) (m : Entries) : Prop where
  kept : ∀ i b, bs[i]? = some b → ∃ e, m[first + i]? = some e ∧ k.Keeps b e
  outside : ∀ h, h < first ∨ first + bs.length ≤ h → m[h]? = none

variable {k : EntryCodec} {first : Nat} {bs : List CompactBlock} {m : Entries}

theorem spans_nil (k : EntryCodec) (first : Nat) : Spans k first [] ∅ where
  kept i b hb := by simp at hb
  outside h _ := Std.ExtTreeMap.getElem?_empty

theorem Spans.take (hm : Spans k first bs m) (n : Nat) (hn : n ≤ bs.length) :
    Spans k first (bs.take n)
      (m.filter fun h _ => !(first + n ≤ h && h < first + bs.length)) where
  kept i b hb := by
    rw [List.getElem?_take] at hb
    split at hb
    next hi =>
      obtain ⟨e, he, hkeeps⟩ := hm.kept i b hb
      refine ⟨e, ?_, hkeeps⟩
      rw [Std.ExtTreeMap.getElem?_filter', he]
      simp
      omega
    next => cases hb
  outside h hh := by
    rw [List.length_take_of_le hn] at hh
    rw [Std.ExtTreeMap.getElem?_filter']
    by_cases hin : h < first ∨ first + bs.length ≤ h
    · rw [hm.outside h hin]
      rfl
    · cases m[h]? with
      | none => rfl
      | some e =>
          simp
          omega

theorem Spans.concat {b : CompactBlock} {e : Entry} (hm : Spans k first bs m)
    (he : k.Keeps b e) : Spans k first (bs ++ [b]) (m.insert (first + bs.length) e) where
  kept i x hx := by
    rw [Std.ExtTreeMap.getElem?_insert]
    by_cases hi : i < bs.length
    · rw [List.getElem?_append_left hi] at hx
      rw [if_neg (by simp; omega)]
      exact hm.kept i x hx
    · have hlast : i = bs.length := by
        have hlt := (List.getElem?_eq_some_iff.mp hx).1
        rw [List.length_append, List.length_singleton] at hlt
        omega
      have hxb : x = b := by
        rw [hlast, List.getElem?_append_right (Nat.le_refl _)] at hx
        simpa using hx.symm
      rw [hlast, hxb, if_pos (by simp)]
      exact ⟨e, rfl, he⟩
  outside h hh := by
    rw [List.length_append, List.length_singleton] at hh
    rw [Std.ExtTreeMap.getElem?_insert, if_neg (by simp; omega)]
    exact hm.outside h (by omega)

theorem Spans.tail {b : CompactBlock} (hm : Spans k first (b :: bs) m) :
    Spans k (first + 1) bs (m.erase first) where
  kept i x hx := by
    rw [Std.ExtTreeMap.getElem?_erase, if_neg (by simp; omega), Nat.add_right_comm]
    exact hm.kept (i + 1) x (by rwa [List.getElem?_cons_succ])
  outside h hh := by
    rw [Std.ExtTreeMap.getElem?_erase]
    by_cases hfirst : h = first
    · rw [if_pos (by simp [hfirst])]
    · rw [if_neg (by simp; omega)]
      refine hm.outside h ?_
      rw [List.length_cons]
      omega

/-- The entry below the end of the blocks lets a block in exactly when the block extends
the last one. -/
theorem Spans.fitsAbove_iff (hm : Spans k first bs m) (b : CompactBlock) :
    fitsAbove (first + bs.length) b m = true ↔ b.ExtendsLast bs := by
  unfold fitsAbove
  rcases List.eq_nil_or_concat bs with rfl | ⟨init, p, rfl⟩
  · have hnone : m[first + 0 - 1]? = none ∨ first + 0 = 0 := by
      by_cases h0 : first = 0
      · exact Or.inr (by omega)
      · exact Or.inl (hm.outside _ (by simp; omega))
    simp only [List.length_nil]
    rcases hnone with hnone | h0
    · rw [hnone]
      simp [CompactBlock.extendsLast_nil]
    · rw [if_pos h0]
      simp [CompactBlock.extendsLast_nil]
  · obtain ⟨e, he, -, hhash⟩ := hm.kept init.length p (by simp)
    have hbelow : first + (init ++ [p]).length - 1 = first + init.length := by
      rw [List.length_append, List.length_singleton]
      omega
    rw [List.concat_eq_append, hbelow, he, if_neg (by simp)]
    simp [CompactBlock.ExtendsLast, hhash]

def blockAt? (first : Nat) (bs : List CompactBlock) (h : Nat) : Option CompactBlock :=
  if first ≤ h then bs[h - first]? else none

theorem blockAt?_eq_some_iff {h : Nat} {b : CompactBlock} :
    blockAt? first bs h = some b ↔ first ≤ h ∧ bs[h - first]? = some b := by
  unfold blockAt?
  split
  next hlow => simp [hlow]
  next hlow => simp [hlow]

theorem exists_blockAt?_iff {h : Nat} :
    (∃ b, blockAt? first bs h = some b) ↔ first ≤ h ∧ h < first + bs.length := by
  rw [← Option.isSome_iff_exists]
  unfold blockAt?
  split
  next hlow =>
    rw [isSome_getElem?]
    simp [hlow]
    omega
  next hlow => simp [hlow]

@[simp] theorem blockAt?_singleton_eq_some_iff {h g : Nat} {b x : CompactBlock} :
    blockAt? h [b] g = some x ↔ g = h ∧ x = b := by
  rw [blockAt?_eq_some_iff, List.getElem?_singleton]
  by_cases hg : g = h
  · simp [hg, eq_comm]
  · constructor
    · rintro ⟨hle, hx⟩
      rw [if_neg (by omega)] at hx
      cases hx
    · rintro ⟨hgh, -⟩
      exact absurd hgh hg

theorem blockAt?_take {n g : Nat} {x : CompactBlock} :
    blockAt? first (bs.take n) g = some x ↔ g < first + n ∧ blockAt? first bs g = some x := by
  rw [blockAt?_eq_some_iff, blockAt?_eq_some_iff, List.getElem?_take]
  by_cases hg : g - first < n
  · rw [if_pos hg]
    constructor
    · rintro ⟨hlow, hx⟩
      exact ⟨by omega, hlow, hx⟩
    · rintro ⟨-, hlow, hx⟩
      exact ⟨hlow, hx⟩
  · rw [if_neg hg]
    constructor
    · rintro ⟨-, hx⟩
      cases hx
    · rintro ⟨hlt, hlow, -⟩
      exact absurd (by omega) hg

theorem blockAt?_concat {g : Nat} {b x : CompactBlock} :
    blockAt? first (bs ++ [b]) g = some x ↔
      blockAt? first bs g = some x ∨ (g = first + bs.length ∧ x = b) := by
  simp only [blockAt?_eq_some_iff, List.getElem?_append, List.getElem?_singleton]
  by_cases hg : g - first < bs.length
  · rw [if_pos hg]
    constructor
    · exact Or.inl
    · rintro (hx | ⟨rfl, -⟩)
      · exact hx
      · omega
  · have hnone : bs[g - first]? = none := List.getElem?_eq_none_iff.mpr (by omega)
    rw [if_neg hg, hnone]
    constructor
    · rintro ⟨hlow, hx⟩
      split at hx
      · exact Or.inr ⟨by omega, (Option.some.inj hx).symm⟩
      · cases hx
    · rintro (⟨-, hx⟩ | ⟨rfl, rfl⟩)
      · cases hx
      · exact ⟨by omega, if_pos (by omega)⟩

theorem blockAt?_tail {g : Nat} {x : CompactBlock} :
    blockAt? (first + 1) bs.tail g = some x ↔ first < g ∧ blockAt? first bs g = some x := by
  rw [blockAt?_eq_some_iff, blockAt?_eq_some_iff, List.getElem?_tail]
  constructor
  · rintro ⟨hlow, hx⟩
    rw [show g - (first + 1) + 1 = g - first by omega] at hx
    exact ⟨hlow, by omega, hx⟩
  · rintro ⟨hlow, -, hx⟩
    rw [show g - (first + 1) + 1 = g - first by omega]
    exact ⟨hlow, hx⟩

theorem blockAt?_drop {n g : Nat} {x : CompactBlock} :
    blockAt? (first + n) (bs.drop n) g = some x ↔
      first + n ≤ g ∧ blockAt? first bs g = some x := by
  rw [blockAt?_eq_some_iff, blockAt?_eq_some_iff, List.getElem?_drop]
  constructor
  · rintro ⟨hlow, hx⟩
    rw [show n + (g - (first + n)) = g - first by omega] at hx
    exact ⟨hlow, by omega, hx⟩
  · rintro ⟨hlow, -, hx⟩
    rw [show n + (g - (first + n)) = g - first by omega]
    exact ⟨hlow, hx⟩

theorem blockAt?_append {rs : List CompactBlock} {g : Nat} {x : CompactBlock} :
    blockAt? first (bs ++ rs) g = some x ↔
      blockAt? first bs g = some x ∨ blockAt? (first + bs.length) rs g = some x := by
  simp only [blockAt?_eq_some_iff, List.getElem?_append]
  split
  next hin =>
    refine (or_iff_left ?_).symm
    rintro ⟨hlow, -⟩
    omega
  next hout =>
    have hnone : bs[g - first]? = none := List.getElem?_eq_none_iff.mpr (by omega)
    rw [hnone, Nat.sub_sub]
    constructor
    · rintro ⟨hlow, hx⟩
      exact Or.inr ⟨by omega, hx⟩
    · rintro (⟨-, hx⟩ | ⟨hlow, hx⟩)
      · cases hx
      · exact ⟨by omega, hx⟩

/-- A block may go on top of the blocks below a height when it extends the one that the run
has just below, if it has one there. -/
theorem extendsLast_take_iff {h : Nat} {b : CompactBlock} (hlow : first ≤ h)
    (hhigh : h ≤ first + bs.length) :
    b.ExtendsLast (bs.take (h - first)) ↔
      ∀ g x, h = g + 1 → blockAt? first bs g = some x → b.Extends x.hash := by
  have hlast : ∀ x, (bs.take (h - first)).getLast? = some x ↔
      ∃ g, h = g + 1 ∧ blockAt? first bs g = some x := by
    intro x
    rw [List.getLast?_eq_getElem?, List.length_take_of_le (by omega), List.getElem?_take]
    constructor
    · intro hx
      split at hx
      next hlt =>
        refine ⟨h - 1, by omega, blockAt?_eq_some_iff.mpr ⟨by omega, ?_⟩⟩
        rwa [show h - 1 - first = h - first - 1 by omega]
      next => cases hx
    · rintro ⟨g, rfl, hx⟩
      obtain ⟨hle, hx⟩ := blockAt?_eq_some_iff.mp hx
      rw [if_pos (by omega), show g + 1 - first - 1 = g - first by omega]
      exact hx
  constructor
  · intro hb g x hg hx
    exact hb x ((hlast x).mpr ⟨g, hg, hx⟩)
  · intro hb x hx
    obtain ⟨g, hg, hx⟩ := (hlast x).mp hx
    exact hb g x hg hx

/-- The cache holds exactly the blocks `bs`, at the heights from `first` on. -/
structure Holds (c : Cache) (first : Nat) (bs : List CompactBlock) : Prop where
  window : c.window = some (Window.span first bs.length)
  spans : Spans c.codec first bs c.entries
  ne_nil : bs ≠ []
  bounded : bs.length ≤ c.capacity
  linked : CompactBlock.Linked bs

variable {c : Cache} {h : Nat} {b : CompactBlock} {data : Bytes}

theorem Holds.length_pos (hc : c.Holds first bs) : 0 < bs.length :=
  List.length_pos_iff.mpr hc.ne_nil

theorem Holds.bounds_eq (hc : c.Holds first bs) :
    c.bounds = some (first, first + bs.length - 1) := by
  simp [bounds, hc.window, Window.last?_span hc.length_pos]

theorem Holds.latestHeight_eq (hc : c.Holds first bs) :
    c.latestHeight = some (first + bs.length - 1) := by
  simp [latestHeight, hc.window, Window.last?_span hc.length_pos]

theorem Holds.get_of_lt (hc : c.Holds first bs) (hh : h < first) : c.get h = .ok none := by
  unfold get
  rw [hc.spans.outside h (Or.inl hh)]

theorem Holds.get_of_end_le (hc : c.Holds first bs) (hh : first + bs.length ≤ h) :
    c.get h = .ok none := by
  unfold get
  rw [hc.spans.outside h (Or.inr hh)]

theorem Holds.get_add (hc : c.Holds first bs) {i : Nat} (hb : bs[i]? = some b)
    (hfaithful : c.codec.Faithful b) : c.get (first + i) = .ok (some b) := by
  obtain ⟨e, he, hencode, -⟩ := hc.spans.kept i b hb
  unfold get
  rw [he]
  simp only [hfaithful e.data hencode]

/-- The cache gives a block exactly where it holds it. -/
theorem Holds.get_eq_some_iff (hc : c.Holds first bs)
    (hfaithful : ∀ x ∈ bs, c.codec.Faithful x) :
    c.get h = .ok (some b) ↔ blockAt? first bs h = some b := by
  rw [blockAt?_eq_some_iff]
  constructor
  · intro hget
    by_cases hlow : h < first
    · rw [hc.get_of_lt hlow] at hget
      cases hget
    · by_cases hhigh : first + bs.length ≤ h
      · rw [hc.get_of_end_le hhigh] at hget
        cases hget
      · have hin : h - first < bs.length := by omega
        have hx : bs[h - first]? = some bs[h - first] := List.getElem?_eq_getElem hin
        have hgetx := hc.get_add hx (hfaithful _ (List.getElem_mem hin))
        rw [Nat.add_sub_cancel' (by omega), hget] at hgetx
        cases hgetx
        exact ⟨by omega, hx⟩
  · rintro ⟨hlow, hb⟩
    have hget := hc.get_add hb (hfaithful b (List.mem_of_getElem? hb))
    rwa [Nat.add_sub_cancel' hlow] at hget

theorem Holds.get_eq_none_iff (hc : c.Holds first bs)
    (hfaithful : ∀ x ∈ bs, c.codec.Faithful x) :
    c.get h = .ok none ↔ h < first ∨ first + bs.length ≤ h := by
  constructor
  · intro hget
    by_cases hin : first ≤ h ∧ h < first + bs.length
    · obtain ⟨x, hx⟩ := exists_blockAt?_iff.mpr hin
      have hsome := (hc.get_eq_some_iff hfaithful).mpr hx
      rw [hget] at hsome
      cases hsome
    · omega
  · rintro (hlow | hhigh)
    · exact hc.get_of_lt hlow
    · exact hc.get_of_end_le hhigh

/-- Each cached block extends the one that is cached below it. -/
theorem Holds.extends_blockAt? {a : CompactBlock} (hc : c.Holds first bs)
    (ha : blockAt? first bs h = some a) (hb : blockAt? first bs (h + 1) = some b) :
    b.Extends a.hash := by
  obtain ⟨hlow, ha⟩ := blockAt?_eq_some_iff.mp ha
  obtain ⟨-, hb⟩ := blockAt?_eq_some_iff.mp hb
  rw [Nat.succ_sub hlow] at hb
  exact hc.linked (h - first) a b ha hb

end Cache

end LightServer
