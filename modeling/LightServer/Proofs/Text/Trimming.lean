import LightServer.Text.Blank

/-!
# What trimming finds

A trimmed text neither begins nor ends with a blank. Trimming finds such a text between
any blanks around it, and there is only one that it can find. So blanks that are put around
a text make no difference, and trimming again changes nothing.
-/

namespace LightServer.Text

variable {c : Char} {s t l r : List Char}

structure IsTrimmed (t : List Char) : Prop where
  head : ∀ c ∈ t.head?, isBlank c = false
  getLast : ∀ c ∈ t.getLast?, isBlank c = false

theorem isTrimmed_of_forall (h : ∀ c ∈ t, isBlank c = false) : IsTrimmed t where
  head c hc := h c (List.mem_of_head? hc)
  getLast c hc := h c (List.mem_of_getLast? hc)

theorem isTrimmed_of_ends {a b : Char} (hhead : t.head? = some a) (hlast : t.getLast? = some b)
    (ha : isBlank a = false) (hb : isBlank b = false) : IsTrimmed t where
  head c hc := by
    rw [hhead] at hc
    cases hc
    exact ha
  getLast c hc := by
    rw [hlast] at hc
    cases hc
    exact hb

theorem IsTrimmed.reverse (h : IsTrimmed t) : IsTrimmed t.reverse where
  head c hc := h.getLast c (List.head?_reverse ▸ hc)
  getLast c hc := h.head c (List.getLast?_reverse ▸ hc)

theorem exists_append_dropWhile (s : List Char) :
    ∃ l, s = l ++ s.dropWhile isBlank ∧ ∀ c ∈ l, isBlank c = true :=
  ⟨s.takeWhile isBlank, List.takeWhile_append_dropWhile.symm,
    List.all_eq_true.mp List.all_takeWhile⟩

/-- Around a trimmed text there were blanks. -/
theorem exists_append_trimBlanks (s : List Char) :
    ∃ l r, s = l ++ trimBlanks s ++ r ∧ ∀ c ∈ l ++ r, isBlank c = true := by
  obtain ⟨l, hl, hblank⟩ := exists_append_dropWhile s
  obtain ⟨r, hr, hblank'⟩ := exists_append_dropWhile (s.dropWhile isBlank).reverse
  refine ⟨l, r.reverse, ?_, ?_⟩
  · rw [List.append_assoc, trimBlanks, trimBlanksEnd, ← List.reverse_append, ← hr,
      List.reverse_reverse, ← hl]
  · intro c hc
    obtain hc | hc := List.mem_append.mp hc
    · exact hblank c hc
    · exact hblank' c (List.mem_reverse.mp hc)

theorem dropWhile_isBlank_append (hl : ∀ c ∈ l, isBlank c = true)
    (ht : ∀ c ∈ t.head?, isBlank c = false) (hne : t ≠ []) :
    (l ++ (t ++ r)).dropWhile isBlank = t ++ r := by
  obtain ⟨c, t, rfl⟩ := List.exists_cons_of_ne_nil hne
  have hc : isBlank c = false := ht c rfl
  rw [List.dropWhile_append_of_pos hl, List.cons_append, List.dropWhile_cons_of_neg]
  rw [hc]
  exact Bool.false_ne_true

/-- Trimming finds a trimmed text between blanks. -/
theorem IsTrimmed.trimBlanks_append (ht : IsTrimmed t) (hblank : ∀ c ∈ l ++ r, isBlank c = true) :
    trimBlanks (l ++ t ++ r) = t := by
  by_cases hne : t = []
  · subst hne
    have hall : (l ++ r).dropWhile isBlank = [] := by
      rw [← List.append_nil (l ++ r), List.dropWhile_append_of_pos hblank, List.dropWhile_nil]
    rw [List.append_nil, trimBlanks, hall]
    rfl
  · obtain ⟨hl, hr⟩ := List.forall_mem_append.mp hblank
    have hend : (t ++ r).reverse.dropWhile isBlank = t.reverse := by
      rw [List.reverse_append, ← List.append_nil t.reverse]
      exact dropWhile_isBlank_append (fun c hc => hr c (List.mem_reverse.mp hc))
        ht.reverse.head (mt List.reverse_eq_nil_iff.mp hne)
    rw [trimBlanks, List.append_assoc, dropWhile_isBlank_append hl ht.head hne, trimBlanksEnd,
      hend, List.reverse_reverse]

theorem IsTrimmed.trimBlanks_eq (ht : IsTrimmed t) : trimBlanks t = t := by
  have h := ht.trimBlanks_append (l := []) (r := []) nofun
  rwa [List.append_nil, List.nil_append] at h

theorem trimBlanks_cons (h : isBlank c = true) : trimBlanks (c :: s) = trimBlanks s := by
  rw [trimBlanks, List.dropWhile_cons_of_pos h, trimBlanks]

theorem isBlank_of_mem_head?_dropWhile (h : c ∈ (s.dropWhile isBlank).head?) :
    isBlank c = false := by
  have hhead := List.head?_dropWhile_not isBlank s
  rw [Option.mem_def.mp h] at hhead
  simpa using hhead

theorem isTrimmed_trimBlanks (s : List Char) : IsTrimmed (trimBlanks s) where
  head c hc := by
    -- what is dropped at the end leaves the first character alone
    obtain ⟨r, hr, -⟩ := exists_append_dropWhile (s.dropWhile isBlank).reverse
    have hdrop : s.dropWhile isBlank = trimBlanks s ++ r.reverse := by
      rw [trimBlanks, trimBlanksEnd, ← List.reverse_append, ← hr, List.reverse_reverse]
    refine isBlank_of_mem_head?_dropWhile (s := s) ?_
    rw [hdrop, List.head?_append, Option.mem_def.mp hc]
    rfl
  getLast c hc := by
    rw [trimBlanks, trimBlanksEnd, List.getLast?_reverse] at hc
    exact isBlank_of_mem_head?_dropWhile hc

/-- There is one trimmed text only that has nothing but blanks around it. -/
theorem trimBlanks_eq_iff :
    trimBlanks s = t ↔ IsTrimmed t ∧ ∃ l r, s = l ++ t ++ r ∧ ∀ c ∈ l ++ r, isBlank c = true := by
  constructor
  · rintro rfl
    exact ⟨isTrimmed_trimBlanks s, exists_append_trimBlanks s⟩
  · rintro ⟨ht, l, r, rfl, hblank⟩
    exact ht.trimBlanks_append hblank

/-- Blanks around a text make no difference. -/
theorem trimBlanks_append (hblank : ∀ c ∈ l ++ r, isBlank c = true) :
    trimBlanks (l ++ s ++ r) = trimBlanks s := by
  obtain ⟨l', r', hs, hblank'⟩ := exists_append_trimBlanks s
  refine trimBlanks_eq_iff.mpr ⟨isTrimmed_trimBlanks s, l ++ l', r' ++ r, ?_, ?_⟩
  · rw [congrArg (l ++ · ++ r) hs]
    simp only [List.append_assoc]
  · grind

theorem trimBlanks_dropWhile (s : List Char) : trimBlanks (s.dropWhile isBlank) = trimBlanks s := by
  obtain ⟨l, hs, hblank⟩ := exists_append_dropWhile s
  have h := trimBlanks_append (s := s.dropWhile isBlank) (r := []) (by rwa [List.append_nil])
  rwa [List.append_nil, ← hs, eq_comm] at h

theorem trimBlanks_trimBlanksEnd (s : List Char) : trimBlanks (trimBlanksEnd s) = trimBlanks s := by
  obtain ⟨r, hr, hblank⟩ := exists_append_dropWhile s.reverse
  have hs : s = trimBlanksEnd s ++ r.reverse := by
    rw [trimBlanksEnd, ← List.reverse_append, ← hr, List.reverse_reverse]
  have h := trimBlanks_append (l := []) (s := trimBlanksEnd s) (r := r.reverse)
    fun c hc => hblank c (List.mem_reverse.mp hc)
  rwa [List.nil_append, ← hs, eq_comm] at h

/-- What is around a character that is no blank is trimmed on the far side of it. -/
theorem trimBlanks_append_cons (h : isBlank c = false) (s t : List Char) :
    trimBlanks (s ++ c :: t) = s.dropWhile isBlank ++ c :: trimBlanksEnd t := by
  have hfront (s t : List Char) :
      (s ++ c :: t).dropWhile isBlank = s.dropWhile isBlank ++ c :: t := by
    rw [List.dropWhile_append]
    split
    next hnil =>
      rw [List.isEmpty_iff.mp hnil, List.dropWhile_cons_of_neg (by rw [h]; decide)]
      rfl
    next => rfl
  have hback (s : List Char) :
      trimBlanksEnd (s ++ c :: t) = s ++ c :: trimBlanksEnd t := by
    rw [trimBlanksEnd, List.reverse_append, List.reverse_cons, List.append_assoc,
      List.singleton_append, hfront, List.reverse_append, List.reverse_cons, List.reverse_reverse,
      List.append_assoc, List.singleton_append, trimBlanksEnd]
  rw [trimBlanks, hfront, hback]

/-- Trimming a text again changes nothing. -/
theorem trimmed_trimmed (s : String) : trimmed (trimmed s) = trimmed s := by
  unfold trimmed
  rw [String.toList_ofList, (isTrimmed_trimBlanks _).trimBlanks_eq]

/-- Only blanks are lost. -/
theorem count_trimBlanks (h : isBlank c = false) : (trimBlanks s).count c = s.count c := by
  obtain ⟨l, r, hs, hblank⟩ := exists_append_trimBlanks s
  obtain ⟨hl, hr⟩ := List.forall_mem_append.mp hblank
  have hnone {x : List Char} (hx : ∀ c ∈ x, isBlank c = true) : x.count c = 0 :=
    List.count_eq_zero.mpr fun hc => by
      rw [hx c hc] at h
      cases h
  rw [congrArg (List.count c) hs, List.count_append, List.count_append, hnone hl, hnone hr]
  omega

end LightServer.Text
