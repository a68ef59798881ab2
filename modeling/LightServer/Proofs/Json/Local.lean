import LightServer.Json.Skip
import LightServer.Proofs.Json.Rereading

/-!
# What readers depend on

A reader of the parts of a JSON text takes something from the front of the text. What it
takes depends on nothing that comes after it, except that a number must not go on there,
and two steps for each character that is taken are enough. A list whose parts are read in
this way is a text of these parts with commas between them.
-/

namespace LightServer.Json

variable {α β κ : Type} {c close : Char} {fuel : Nat} {s t w r : List Char}

def Blanks (w : List Char) : Prop := ∀ c ∈ w, c = ' ' ∨ c = '\n' ∨ c = '\t' ∨ c = '\r'

theorem blanks_nil : Blanks [] := List.forall_mem_nil _

theorem skipBlanks_append (hw : Blanks w) (s : List Char) : skipBlanks (w ++ s) = skipBlanks s := by
  induction w with
  | nil => rfl
  | cons c w ih =>
      obtain ⟨hc, hw⟩ := List.forall_mem_cons.mp hw
      rw [List.cons_append, skipBlanks, if_pos hc, ih hw]

theorem exists_blanks (s : List Char) : ∃ w, Blanks w ∧ s = w ++ skipBlanks s := by
  induction s with
  | nil => exact ⟨[], blanks_nil, rfl⟩
  | cons c s ih =>
      rw [skipBlanks]
      split
      next hc =>
        obtain ⟨w, hw, hs⟩ := ih
        exact ⟨c :: w, List.forall_mem_cons.mpr ⟨hc, hw⟩, congrArg (c :: ·) hs⟩
      next => exact ⟨[], blanks_nil, rfl⟩

def NotBlank (c : Char) : Prop := ¬ (c = ' ' ∨ c = '\n' ∨ c = '\t' ∨ c = '\r')

theorem skipBlanks_cons (hc : NotBlank c) (s : List Char) : skipBlanks (c :: s) = c :: s := by
  rw [skipBlanks, if_neg hc]

theorem notBlank_of_skipBlanks (h : skipBlanks s = c :: t) : NotBlank c := by
  induction s with
  | nil => cases h
  | cons d s ih =>
      rw [skipBlanks] at h
      split at h
      next => exact ih h
      next hd =>
        cases h
        exact hd

theorem skipBlanks_skipBlanks (s : List Char) : skipBlanks (skipBlanks s) = skipBlanks s := by
  obtain ⟨w, hw, hs⟩ := exists_blanks s
  conv_rhs => rw [hs, skipBlanks_append hw]

theorem isEmpty_skipBlanks_iff : (skipBlanks s).isEmpty = true ↔ Blanks s := by
  rw [List.isEmpty_iff]
  constructor
  · intro h
    obtain ⟨w, hw, hs⟩ := exists_blanks s
    rw [hs, h, List.append_nil]
    exact hw
  · intro h
    have hskip := skipBlanks_append h []
    rwa [List.append_nil] at hskip

theorem endsNumber_blanks_append (hw : Blanks w) (hr : EndsNumber r) : EndsNumber (w ++ r) := by
  cases w with
  | nil => exact hr
  | cons c w =>
      obtain rfl | rfl | rfl | rfl := hw c List.mem_cons_self <;>
        exact endsNumber_cons rfl (by decide) (by decide) (by decide)

theorem Blanks.endsNumber (hw : Blanks w) : EndsNumber w := by
  have h := endsNumber_blanks_append hw endsNumber_nil
  rwa [List.append_nil] at h

abbrev BoundedReader (α : Type) := Nat → List Char → Option (α × List Char)

/-- The reader takes the text from the front of others and reads it as `x`. -/
def Takes (f : BoundedReader α) (t : List Char) (x : α) : Prop :=
  ∀ fuel r, EndsNumber r → 2 * t.length ≤ fuel → f fuel (t ++ r) = some (x, r)

/-- What the reader takes in so many steps it takes from the front of other texts as well. -/
def Local (f : BoundedReader α) (fuel : Nat) : Prop :=
  ∀ s x r, f fuel s = some (x, r) → ∃ t, s = t ++ r ∧ Takes f t x

/-- The reader takes the text up to the blanks at its end. -/
def TakesPadded (f : BoundedReader α) (t : List Char) (x : α) : Prop :=
  ∃ s w, t = s ++ w ∧ Takes f s x ∧ Blanks w

def Consists (f : BoundedReader α) (t : List Char) (x : α) : Prop :=
  ∃ w, f (fuelFor t) t = some (x, w) ∧ Blanks w

section Readers

variable {f : BoundedReader α} {x : α}

theorem takes_of_succ (hne : t ≠ []) (h : ∀ fuel r, EndsNumber r → 2 * t.length ≤ fuel + 1 →
    f (fuel + 1) (t ++ r) = some (x, r)) : Takes f t x := by
  intro fuel r hr hfuel
  have hpos := List.length_pos_iff.mpr hne
  obtain ⟨k, rfl⟩ : ∃ k, fuel = k + 1 := ⟨fuel - 1, by omega⟩
  exact h k r hr hfuel

theorem Takes.ne_nil (h : Takes f t x) (hzero : ∀ s, f 0 s = none) : t ≠ [] := by
  rintro rfl
  have hread := h 0 [] endsNumber_nil (Nat.le_refl _)
  rw [hzero] at hread
  cases hread

theorem Takes.map (h : Takes f t x) (g : α → β) :
    Takes (fun fuel s => (f fuel s).map fun y => (g y.1, y.2)) t (g x) := by
  intro fuel r hr hfuel
  simp only [h fuel r hr hfuel, Option.map_some]

theorem Local.map (h : Local f fuel) (g : α → β) :
    Local (fun fuel s => (f fuel s).map fun y => (g y.1, y.2)) fuel := by
  intro s y r hread
  obtain ⟨⟨x, r'⟩, hx, hy⟩ := Option.map_eq_some_iff.mp hread
  cases hy
  obtain ⟨t, hs, ht⟩ := h s x r' hx
  exact ⟨t, hs, ht.map g⟩

theorem Local.unless (h : Local f fuel) (closed : Prop) [Decidable closed] :
    Local (fun fuel s => if closed then none else f fuel s) fuel := by
  intro s x r hread
  obtain ⟨hopen, hx⟩ := Option.ite_none_left_eq_some.mp hread
  obtain ⟨t, hs, ht⟩ := h s x r hx
  exact ⟨t, hs, fun k r' hr' hk => (if_neg hopen).trans (ht k r' hr' hk)⟩

/-- Whether a text consists of a value can be seen by reading it. -/
theorem consists_iff (hf : ∀ fuel, Local f fuel) : Consists f t x ↔ TakesPadded f t x := by
  constructor
  · rintro ⟨w, hread, hw⟩
    obtain ⟨s, ht, hs⟩ := hf _ t x w hread
    exact ⟨s, w, ht, hs, hw⟩
  · rintro ⟨s, w, rfl, hs, hw⟩
    refine ⟨w, hs _ w hw.endsNumber ?_, hw⟩
    rw [fuelFor, List.length_append]
    omega

end Readers

section Lists

/-- The mark after a part of a list: whether it closes the list, and the rest. -/
def readMark (close : Char) (s : List Char) : Option (Bool × List Char) :=
  match skipBlanks s with
  | [] => none
  | c :: s => if c = close then some (true, s) else if c = ',' then some (false, s) else none

def readList (close : Char) (f : BoundedReader α) : BoundedReader (List α)
  | 0, _ => none
  | fuel + 1, s =>
      (f fuel s).bind fun x => (readMark close x.2).bind fun mark =>
        if mark.1 then some ([x.1], mark.2)
        else (readList close f fuel mark.2).map fun xs => (x.1 :: xs.1, xs.2)

def Closes (close : Char) : Prop := close = ']' ∨ close = '\x7d'

theorem Closes.endsNumber (h : Closes close) (r : List Char) : EndsNumber (close :: r) := by
  obtain rfl | rfl := h <;> exact endsNumber_cons rfl (by decide) (by decide) (by decide)

theorem Closes.notBlank (h : Closes close) : NotBlank close := by
  unfold NotBlank
  obtain rfl | rfl := h <;> decide

theorem endsNumber_comma (r : List Char) : EndsNumber (',' :: r) :=
  endsNumber_cons rfl (by decide) (by decide) (by decide)

theorem readMark_close (hclose : Closes close) (hw : Blanks w) (r : List Char) :
    readMark close (w ++ close :: r) = some (true, r) := by
  rw [readMark, skipBlanks_append hw]
  obtain rfl | rfl := hclose <;> simp [skipBlanks]

theorem readMark_comma (hclose : Closes close) (hw : Blanks w) (r : List Char) :
    readMark close (w ++ ',' :: r) = some (false, r) := by
  rw [readMark, skipBlanks_append hw]
  obtain rfl | rfl := hclose <;> simp [skipBlanks]

theorem readMark_cases (hclose : Closes close) (s : List Char) :
    (∃ r, skipBlanks s = close :: r ∧ readMark close s = some (true, r)) ∨
      (∃ r, skipBlanks s = ',' :: r ∧ readMark close s = some (false, r)) ∨
      (∀ r, skipBlanks s ≠ close :: r) ∧ (∀ r, skipBlanks s ≠ ',' :: r) ∧
        readMark close s = none := by
  have hne : ',' ≠ close := by
    rintro rfl
    obtain h | h := hclose <;> cases h
  unfold readMark
  cases skipBlanks s with
  | nil => exact .inr (.inr ⟨nofun, nofun, rfl⟩)
  | cons c r =>
      by_cases hc : c = close
      · subst hc
        exact .inl ⟨r, rfl, if_pos rfl⟩
      · by_cases hcomma : c = ','
        · subst hcomma
          exact .inr (.inl ⟨r, rfl, by simp [hne]⟩)
        · refine .inr (.inr ⟨fun r h => hc (List.head_eq_of_cons_eq h),
            fun r h => hcomma (List.head_eq_of_cons_eq h), ?_⟩)
          simp [hc, hcomma]

theorem exists_of_readMark {last : Bool} (h : readMark close s = some (last, r)) :
    ∃ w, Blanks w ∧ s = w ++ (if last then close else ',') :: r := by
  obtain ⟨w, hw, hs⟩ := exists_blanks s
  refine ⟨w, hw, ?_⟩
  unfold readMark at h
  split at h
  next => cases h
  next c s' hskip =>
    rw [hskip] at hs
    split at h
    next hc =>
      cases h
      rw [hs, hc]
      rfl
    next =>
      obtain ⟨hc, h⟩ := Option.ite_none_right_eq_some.mp h
      cases h
      rw [hs, hc]
      rfl

variable {f : BoundedReader α} {xs : List α} {ts : List (List Char)}

theorem intercalate_cons (t : List Char) (hts : ts ≠ []) :
    [','].intercalate (t :: ts) = t ++ ',' :: [','].intercalate ts := by
  obtain ⟨t', ts, rfl⟩ := List.exists_cons_of_ne_nil hts
  simp [List.intercalate]

/-- A list that is read is a text of its parts with commas between them. -/
theorem exists_texts_of_readList (hf : ∀ k < fuel, Local f k)
    (h : readList close f fuel s = some (xs, r)) :
    ∃ ts, ts ≠ [] ∧ s = [','].intercalate ts ++ close :: r ∧
      List.Forall₂ (TakesPadded f) ts xs := by
  induction fuel generalizing s xs with
  | zero => cases h
  | succ fuel ih =>
      simp only [readList, Option.bind_eq_some_iff] at h
      obtain ⟨⟨x, s'⟩, hx, ⟨last, s''⟩, hmark, h⟩ := h
      obtain ⟨t, rfl, ht⟩ := hf fuel (Nat.lt_succ_self fuel) s x s' hx
      obtain ⟨w, hw, rfl⟩ := exists_of_readMark hmark
      have hpart : TakesPadded f (t ++ w) x := ⟨t, w, rfl, ht, hw⟩
      cases last with
      | true =>
          cases h
          exact ⟨[t ++ w], List.cons_ne_nil _ _, by simp, .cons hpart .nil⟩
      | false =>
          obtain ⟨⟨xs', r'⟩, hrest, h⟩ := Option.map_eq_some_iff.mp h
          cases h
          obtain ⟨ts, hne, rfl, hts⟩ := ih (fun k hk => hf k (Nat.lt_succ_of_lt hk)) hrest
          refine ⟨(t ++ w) :: ts, List.cons_ne_nil _ _, ?_, .cons hpart hts⟩
          rw [intercalate_cons _ hne]
          simp

/-- A text of parts with commas between them is read as the list of these parts. -/
theorem takes_readList (hclose : Closes close) (hts : List.Forall₂ (TakesPadded f) ts xs)
    (hne : ts ≠ []) : Takes (readList close f) ([','].intercalate ts ++ [close]) xs := by
  induction hts with
  | nil => exact absurd rfl hne
  | @cons t x ts xs hx hts ih =>
      obtain ⟨s, w, rfl, hs, hw⟩ := hx
      refine takes_of_succ (List.append_ne_nil_of_right_ne_nil _ (List.cons_ne_nil _ _)) ?_
      intro fuel r hr hfuel
      cases ts with
      | nil =>
          cases hts
          have hread := hs fuel (w ++ close :: r)
            (endsNumber_blanks_append hw (hclose.endsNumber r)) (by simp at hfuel; omega)
          simp [readList, hread, readMark_close hclose hw]
      | cons t' ts =>
          have htext : [','].intercalate ((s ++ w) :: t' :: ts) ++ [close] =
              s ++ (w ++ ',' :: ([','].intercalate (t' :: ts) ++ [close])) := by
            rw [intercalate_cons _ (List.cons_ne_nil _ _)]
            simp
          rw [htext] at hfuel ⊢
          simp only [List.length_append, List.length_cons] at hfuel
          have hread := hs fuel (w ++ ',' :: ([','].intercalate (t' :: ts) ++ [close] ++ r))
            (endsNumber_blanks_append hw (endsNumber_comma _)) (by omega)
          have hrest := ih (List.cons_ne_nil _ _) fuel r hr (by simp; omega)
          simp only [List.append_assoc, List.cons_append] at hread hrest ⊢
          simp only [readList, hread, Option.bind_some, readMark_comma hclose hw,
            Bool.false_eq_true, if_false, hrest, Option.map_some]

theorem Local.readList (hclose : Closes close) (hf : ∀ k < fuel, Local f k) :
    Local (readList close f) fuel := by
  intro s xs r h
  obtain ⟨ts, hne, rfl, hts⟩ := exists_texts_of_readList hf h
  exact ⟨[','].intercalate ts ++ [close], by simp, takes_readList hclose hts hne⟩

end Lists

section Enclosed

def readEnclosed (close : Char) (f : BoundedReader α) : BoundedReader (List α) := fun fuel s =>
  if (skipBlanks s).head? = some close then some ([], (skipBlanks s).tail)
  else readList close f fuel (skipBlanks s)

/-- The reader of a part passes over blanks, and the end of the list is no part. -/
structure ReadsPart (close : Char) (f : BoundedReader α) : Prop where
  readsLocally : ∀ fuel, Local f fuel
  skips : ∀ fuel s, f fuel (skipBlanks s) = f fuel s
  rejects : ∀ fuel r, f fuel (close :: r) = none

def IsEnclosed (opening close : Char) (P : List Char → α → Prop) (s : List Char) (xs : List α) :
    Prop :=
  ∃ front gap ts back, s = front ++ opening :: (gap ++ ([','].intercalate ts ++ close :: back)) ∧
    Blanks front ∧ Blanks gap ∧ Blanks back ∧ List.Forall₂ P ts xs

variable {f : BoundedReader α} {xs : List α}

theorem ReadsPart.readList_skipBlanks (hf : ReadsPart close f) (fuel : Nat) (s : List Char) :
    readList close f fuel (skipBlanks s) = readList close f fuel s := by
  cases fuel with
  | zero => rfl
  | succ fuel => rw [readList, readList, hf.skips]

theorem ReadsPart.skipBlanks_ne (hf : ReadsPart close f)
    (h : readList close f fuel s = some (xs, r)) (s' : List Char) : skipBlanks s ≠ close :: s' := by
  intro hskip
  rw [← hf.readList_skipBlanks, hskip] at h
  cases fuel with
  | zero => cases h
  | succ fuel =>
      rw [readList, hf.rejects] at h
      cases h

theorem readEnclosed_of_close (fuel : Nat) (h : skipBlanks s = close :: r) :
    readEnclosed close f fuel s = some ([], r) := by
  simp [readEnclosed, h]

theorem readEnclosed_of_ne (fuel : Nat) (h : ∀ r, skipBlanks s ≠ close :: r) :
    readEnclosed close f fuel s = readList close f fuel (skipBlanks s) := by
  refine if_neg fun hhead => ?_
  obtain ⟨r, hr⟩ := List.head?_eq_some_iff.mp hhead
  exact h r hr

theorem Local.readEnclosed (hclose : Closes close) (hf : ∀ k < fuel, Local f k) :
    Local (readEnclosed close f) fuel := by
  intro s xs r h
  obtain ⟨w, hw, hs⟩ := exists_blanks s
  by_cases hskip : ∃ s', skipBlanks s = close :: s'
  · obtain ⟨s', hskip⟩ := hskip
    rw [readEnclosed_of_close fuel hskip] at h
    cases h
    refine ⟨w ++ [close], by rw [hs, hskip]; simp, fun k r _ _ => readEnclosed_of_close k ?_⟩
    rw [List.append_assoc, skipBlanks_append hw]
    exact skipBlanks_cons hclose.notBlank r
  · rw [readEnclosed_of_ne fuel fun s' h => hskip ⟨s', h⟩] at h
    obtain ⟨t, hskip', ht⟩ := Local.readList hclose hf _ xs r h
    obtain ⟨c, t, rfl⟩ := List.exists_cons_of_ne_nil (ht.ne_nil fun _ => rfl)
    refine ⟨w ++ c :: t, by rw [hs, hskip', List.append_assoc], fun k r' hr' hk => ?_⟩
    -- the list begins with a character that is no blank and does not close it
    have hstart : skipBlanks (w ++ c :: t ++ r') = c :: t ++ r' := by
      rw [List.append_assoc, skipBlanks_append hw]
      exact skipBlanks_cons (notBlank_of_skipBlanks hskip') _
    rw [readEnclosed_of_ne k, hstart]
    · exact ht k r' hr' (by simp at hk ⊢; omega)
    · intro s' hs'
      rw [hstart] at hs'
      obtain rfl := List.head_eq_of_cons_eq hs'
      exact hskip ⟨_, hskip'⟩

theorem ReadsPart.readEnclosed_eq_some_iff (hclose : Closes close) (hf : ReadsPart close f)
    (hr : EndsNumber r) (hfuel : 2 * s.length ≤ fuel) :
    readEnclosed close f fuel s = some (xs, r) ↔
      ∃ gap ts, s = gap ++ ([','].intercalate ts ++ close :: r) ∧ Blanks gap ∧
        List.Forall₂ (TakesPadded f) ts xs := by
  constructor
  · intro h
    obtain ⟨gap, hgap, hs⟩ := exists_blanks s
    by_cases hskip : ∃ s', skipBlanks s = close :: s'
    · obtain ⟨s', hskip⟩ := hskip
      rw [readEnclosed_of_close fuel hskip] at h
      cases h
      exact ⟨gap, [], by rw [hs, hskip]; simp, hgap, .nil⟩
    · rw [readEnclosed_of_ne fuel fun s' h => hskip ⟨s', h⟩] at h
      obtain ⟨ts, -, hskip', hts⟩ := exists_texts_of_readList (fun k _ => hf.readsLocally k) h
      exact ⟨gap, ts, hskip' ▸ hs, hgap, hts⟩
  · rintro ⟨gap, ts, rfl, hgap, hts⟩
    cases ts with
    | nil =>
        cases hts
        refine readEnclosed_of_close fuel ?_
        rw [skipBlanks_append hgap]
        exact skipBlanks_cons hclose.notBlank r
    | cons t ts =>
        have hread := takes_readList hclose hts (List.cons_ne_nil _ _) fuel r hr
          (by simp at hfuel ⊢; omega)
        rw [List.append_assoc, List.cons_append, List.nil_append,
          ← hf.readList_skipBlanks] at hread
        have hne := hf.skipBlanks_ne hread
        rw [skipBlanks_skipBlanks] at hne
        rw [← skipBlanks_append hgap] at hread hne
        rw [readEnclosed_of_ne fuel hne]
        exact hread

/-- A text of parts in brackets is read as the list of them. -/
theorem ReadsPart.isEnclosed_iff {opening : Char} (hopening : NotBlank opening)
    (hclose : Closes close) (hf : ReadsPart close f) (hfuel : 2 * s.length ≤ fuel) :
    IsEnclosed opening close (TakesPadded f) s xs ↔
      ∃ s' back, skipBlanks s = opening :: s' ∧ readEnclosed close f fuel s' = some (xs, back) ∧
        Blanks back := by
  constructor
  · rintro ⟨front, gap, ts, back, rfl, hfront, hgap, hback, hts⟩
    refine ⟨_, back, by rw [skipBlanks_append hfront, skipBlanks_cons hopening], ?_, hback⟩
    exact (hf.readEnclosed_eq_some_iff hclose hback.endsNumber (by simp at hfuel ⊢; omega)).mpr
      ⟨gap, ts, rfl, hgap, hts⟩
  · rintro ⟨s', back, hskip, hread, hback⟩
    obtain ⟨front, hfront, hs⟩ := exists_blanks s
    rw [hskip] at hs
    subst hs
    obtain ⟨gap, ts, rfl, hgap, hts⟩ :=
      (hf.readEnclosed_eq_some_iff hclose hback.endsNumber (by simp at hfuel; omega)).mp hread
    exact ⟨front, gap, ts, back, rfl, hfront, hgap, hback, hts⟩

end Enclosed

section Keys

/-- The reader of a string, whose opening quote has been read, stops at the closing quote and
depends on nothing that comes after it. -/
def EndsAtQuote (str : List Char → Option (κ × List Char)) : Prop :=
  ∀ s k r, str s = some (k, r) →
    ∃ t, s = t ++ '"' :: r ∧ ∀ r, str (t ++ '"' :: r) = some (k, r)

theorem EndsAtQuote.map {ι : Type} {str : List Char → Option (κ × List Char)}
    (h : EndsAtQuote str) (g : κ → ι) :
    EndsAtQuote fun s => (str s).map fun k => (g k.1, k.2) := by
  intro s k r hread
  obtain ⟨⟨k', r'⟩, hk, hkey⟩ := Option.map_eq_some_iff.mp hread
  cases hkey
  obtain ⟨t, hs, ht⟩ := h s k' r' hk
  exact ⟨t, hs, fun r => by simp only [ht r, Option.map_some]⟩

theorem cutString_eq_some (h : cutString s = some (t, r)) :
    s = t ++ '"' :: r ∧ ∀ r, cutString (t ++ '"' :: r) = some (t, r) := by
  induction s using cutString.induct generalizing t with
  | case1 => cases h
  | case2 s =>
      rw [cutString] at h
      cases h
      exact ⟨rfl, fun r => by rw [List.nil_append, cutString]⟩
  | case3 c s ih =>
      rw [cutString_escaped] at h
      obtain ⟨⟨t, r'⟩, hcut, h⟩ := Option.map_eq_some_iff.mp h
      cases h
      obtain ⟨hs, hcut⟩ := ih hcut
      refine ⟨by rw [hs]; rfl, fun r => ?_⟩
      rw [List.cons_append, List.cons_append, cutString_escaped, hcut]
      rfl
  | case4 c s hquote hslash hc =>
      rw [cutString.eq_4 _ _ hquote hslash, if_pos hc] at h
      cases h
  | case5 c s hquote hslash hc ih =>
      rw [cutString.eq_4 _ _ hquote hslash, if_neg hc] at h
      obtain ⟨⟨t, r'⟩, hcut, h⟩ := Option.map_eq_some_iff.mp h
      cases h
      obtain ⟨c', s', hs'⟩ : ∃ c' s', s = c' :: s' := by
        cases s with
        | nil => cases hcut
        | cons c' s' => exact ⟨c', s', rfl⟩
      obtain ⟨hs, hcut⟩ := ih hcut
      have halone : StandsAlone c := by
        refine ⟨hquote, fun hc => hslash _ _ hc hs', ?_⟩
        omega
      refine ⟨by rw [hs]; rfl, fun r => ?_⟩
      rw [List.cons_append, cutString_alone halone, hcut]
      rfl

theorem endsAtQuote_readString : EndsAtQuote readString := by
  intro s k r h
  simp only [readString, Option.bind_eq_bind, Option.bind_eq_some_iff, Option.pure_def] at h
  obtain ⟨⟨t, r'⟩, hcut, u, hu, h⟩ := h
  cases h
  obtain ⟨hs, hcut⟩ := cutString_eq_some hcut
  refine ⟨t, hs, fun r => ?_⟩
  simp only [readString, hcut, hu, Option.bind_eq_bind, Option.bind_some, Option.pure_def]

def passString (s : List Char) : Option (Unit × List Char) := (skipString s).map fun r => ((), r)

theorem endsAtQuote_passString : EndsAtQuote passString := by
  intro s k r h
  simp only [passString, skipString, Option.bind_eq_bind, Option.map_eq_some_iff,
    Option.bind_eq_some_iff] at h
  obtain ⟨_, ⟨⟨t, r'⟩, hcut, h⟩, hr⟩ := h
  cases hr
  obtain ⟨hwell, h⟩ := Option.ite_none_right_eq_some.mp h
  cases h
  obtain ⟨hs, hcut⟩ := cutString_eq_some hcut
  refine ⟨t, hs, fun r => ?_⟩
  simp only [passString, skipString, hcut, Option.bind_eq_bind, Option.bind_some, if_pos hwell,
    Option.map_some]

def readKey (str : List Char → Option (κ × List Char)) (s : List Char) :
    Option (κ × List Char) :=
  match skipBlanks s with
  | '"' :: s =>
      (str s).bind fun k =>
        match skipBlanks k.2 with
        | ':' :: s => some (k.1, s)
        | _ => none
  | _ => none

theorem match_key (s : List Char) (g : String → List Char → Option β) :
    (match skipBlanks s with
      | '"' :: s =>
          match readString s with
          | none => none
          | some (k, s) =>
              match skipBlanks s with
              | ':' :: s => g k s
              | _ => none
      | _ => none) = (readKey readString s).bind fun k => g k.1 k.2 := by
  unfold readKey
  split
  next s' _ =>
    cases readString s' with
    | none => rfl
    | some k =>
        simp only [Option.bind_some]
        split <;> rfl
  next => rfl

theorem match_passKey (s : List Char) (g : List Char → Option β) :
    (match skipBlanks s with
      | '"' :: s =>
          match (skipString s).map skipBlanks with
          | some (':' :: s) => g s
          | _ => none
      | _ => none) = (readKey passString s).bind fun k => g k.2 := by
  unfold readKey
  split
  next s' _ =>
    simp only [passString]
    cases skipString s' with
    | none => rfl
    | some s' =>
        simp only [Option.map_some, Option.bind_some]
        split <;> simp_all
  next => rfl

def IsKey (str : List Char → Option (κ × List Char)) (t : List Char) (k : κ) : Prop :=
  ∃ front key back, t = front ++ '"' :: (key ++ '"' :: (back ++ [':'])) ∧ Blanks front ∧
    Blanks back ∧ str (key ++ ['"']) = some (k, [])

variable {str : List Char → Option (κ × List Char)} {k : κ} {f : κ → BoundedReader α}
  {x : κ × α}

theorem IsKey.readKey (hstr : EndsAtQuote str) (h : IsKey str t k) (r : List Char) :
    readKey str (t ++ r) = some (k, r) := by
  obtain ⟨front, key, back, rfl, hfront, hback, hkey⟩ := h
  obtain ⟨key', htext, hread⟩ := hstr _ _ _ hkey
  obtain rfl : key = key' := List.append_cancel_right htext
  simp [Json.readKey, skipBlanks_append hfront, skipBlanks_append hback, skipBlanks, hread]

theorem exists_isKey_of_readKey (hstr : EndsAtQuote str) (h : readKey str s = some (k, r)) :
    ∃ t, s = t ++ r ∧ IsKey str t k := by
  obtain ⟨front, hfront, hs⟩ := exists_blanks s
  unfold Json.readKey at h
  split at h
  next s₁ hopen =>
    obtain ⟨⟨k', s₂⟩, hread, h⟩ := Option.bind_eq_some_iff.mp h
    obtain ⟨back, hback, hs₂⟩ := exists_blanks s₂
    simp only at h
    split at h
    next s₃ hcolon =>
      cases h
      obtain ⟨key, hs₁, hkey⟩ := hstr _ _ _ hread
      refine ⟨front ++ '"' :: (key ++ '"' :: (back ++ [':'])), ?_,
        ⟨front, key, back, rfl, hfront, hback, hkey []⟩⟩
      rw [hs, hopen, hs₁, hs₂, hcolon]
      simp
    next => cases h
  next => cases h

def readEntry (str : List Char → Option (κ × List Char)) (f : κ → BoundedReader α) :
    BoundedReader (κ × α) := fun fuel s =>
  (readKey str s).bind fun k => (f k.1 fuel k.2).map fun x => ((k.1, x.1), x.2)

theorem IsKey.takes (hstr : EndsAtQuote str) (h : IsKey str t k) {v : List Char} {a : α}
    (hv : Takes (f k) v a) : Takes (readEntry str f) (t ++ v) (k, a) := by
  intro fuel r hr hfuel
  have hread := hv fuel r hr (by rw [List.length_append] at hfuel; omega)
  rw [List.append_assoc]
  simp only [readEntry, h.readKey hstr, Option.bind_some, hread, Option.map_some]

theorem exists_texts_of_readEntry (hstr : EndsAtQuote str) (hf : ∀ k, Local (f k) fuel)
    (h : readEntry str f fuel s = some (x, r)) :
    ∃ t v, s = (t ++ v) ++ r ∧ IsKey str t x.1 ∧ Takes (f x.1) v x.2 := by
  obtain ⟨⟨k, s'⟩, hk, h⟩ := Option.bind_eq_some_iff.mp h
  obtain ⟨⟨a, r'⟩, ha, h⟩ := Option.map_eq_some_iff.mp h
  cases h
  obtain ⟨t, rfl, ht⟩ := exists_isKey_of_readKey hstr hk
  obtain ⟨v, rfl, hv⟩ := hf k s' a r' ha
  exact ⟨t, v, (List.append_assoc _ _ _).symm, ht, hv⟩

/-- A text is a member when it is a key and a text that is its value. -/
theorem takesPadded_readEntry_iff (hstr : EndsAtQuote str) (hf : ∀ k fuel, Local (f k) fuel) :
    TakesPadded (readEntry str f) t x ↔
      ∃ key v, t = key ++ v ∧ IsKey str key x.1 ∧ TakesPadded (f x.1) v x.2 := by
  constructor
  · rintro ⟨s, w, rfl, hs, hw⟩
    have hread := hs (fuelFor s) [] endsNumber_nil (Nat.le_add_right _ 2)
    obtain ⟨key, v, htext, hkey, hv⟩ := exists_texts_of_readEntry hstr (fun k => hf k _) hread
    simp only [List.append_nil] at htext
    exact ⟨key, v ++ w, by rw [htext, List.append_assoc], hkey, v, w, rfl, hv, hw⟩
  · rintro ⟨key, v, rfl, hkey, s, w, rfl, hs, hw⟩
    exact ⟨key ++ s, w, (List.append_assoc _ _ _).symm, hkey.takes hstr hs, hw⟩

theorem Local.readEntry (hstr : EndsAtQuote str) (hf : ∀ k, Local (f k) fuel) :
    Local (readEntry str f) fuel := by
  intro s x r h
  obtain ⟨t, v, hs, ht, hv⟩ := exists_texts_of_readEntry hstr hf h
  exact ⟨t ++ v, hs, ht.takes hstr hv⟩

theorem readKey_skipBlanks (s : List Char) : readKey str (skipBlanks s) = readKey str s := by
  rw [Json.readKey, Json.readKey, skipBlanks_skipBlanks]

/-- Members of objects begin with their keys. -/
theorem readsPart_readEntry (hstr : EndsAtQuote str) (hf : ∀ k fuel, Local (f k) fuel) :
    ReadsPart '\x7d' (readEntry str f) where
  readsLocally fuel := Local.readEntry hstr fun k => hf k fuel
  skips fuel s := by rw [Json.readEntry, Json.readEntry, readKey_skipBlanks]
  rejects fuel r := by simp [Json.readEntry, Json.readKey, skipBlanks]

end Keys

end LightServer.Json
