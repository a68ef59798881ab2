import LightServer.Proofs.Json.Numbers

/-!
# Where a number ends

What is scanned as a number begins with a sign or a digit, and is scanned in the same way in
front of everything that cannot be part of it. The exponent need not have a sign here, and
may begin with a capital letter.
-/

namespace LightServer.Json

variable {α : Type} {s r : List Char} {ds : List Nat} {parts : NumberText}

theorem exists_digits_of_spanDigits (h : spanDigits s = (ds, r)) :
    ∃ t, s = t ++ r ∧ (∀ c ∈ t, c.isDigit = true) ∧ digitValues t = ds := by
  induction s generalizing ds with
  | nil =>
      cases h
      exact ⟨[], rfl, List.forall_mem_nil _, rfl⟩
  | cons c s ih =>
      by_cases hc : c.isDigit = true
      · simp only [spanDigits, Text.digitValue?, if_pos hc, Prod.mk.injEq] at h
        obtain ⟨rfl, rfl⟩ := h
        obtain ⟨t, hs, ht, hvalues⟩ := ih rfl
        refine ⟨c :: t, congrArg (c :: ·) hs, List.forall_mem_cons.mpr ⟨hc, ht⟩, ?_⟩
        rw [← hvalues]
        rfl
      · simp only [spanDigits, Text.digitValue?, if_neg hc, Prod.mk.injEq] at h
        obtain ⟨rfl, rfl⟩ := h
        exact ⟨[], rfl, List.forall_mem_nil _, rfl⟩

theorem exists_digits_of_ne_nil (h : spanDigits s = (ds, r)) (hds : ds ≠ []) :
    ∃ t, s = t ++ r ∧ Digits t ∧ digitValues t = ds := by
  obtain ⟨t, hs, ht, rfl⟩ := exists_digits_of_spanDigits h
  exact ⟨t, hs, ⟨fun hnil => hds (hnil ▸ rfl), ht⟩, rfl⟩

theorem exists_digits_of_scanWhole (h : scanWhole s = some (ds, r)) :
    ∃ t, s = t ++ r ∧ Digits t ∧ (t.head? = some '0' → t = ['0']) ∧ digitValues t = ds := by
  unfold scanWhole at h
  split at h
  next => cases h
  next => cases h
  next ds' r' hempty hzero hspan =>
    cases h
    obtain ⟨t, hs, ht, hvalues⟩ := exists_digits_of_ne_nil hspan hempty
    refine ⟨t, hs, ht, fun hhead => ?_, hvalues⟩
    match t, hhead, hvalues with
    | [c], hhead, _ => rw [Option.some.inj hhead]
    | c :: d :: t, hhead, hvalues =>
        -- a second digit after a zero
        rw [List.head?_cons, Option.some.injEq] at hhead
        subst hhead
        exact (hzero _ _ hvalues.symm).elim

theorem exists_text_of_scanFraction {f : Option (List Nat)} (h : scanFraction s = some (f, r)) :
    ∃ t, s = Numeral.fractionText t ++ r ∧ (∀ ds ∈ t, Digits ds) ∧ t.map digitValues = f := by
  unfold scanFraction at h
  split at h
  next s =>
    split at h
    next => cases h
    next ds r' hempty hspan =>
      cases h
      obtain ⟨t, rfl, ht, rfl⟩ := exists_digits_of_ne_nil hspan hempty
      refine ⟨some t, rfl, ?_, rfl⟩
      rintro _ ⟨⟩
      exact ht
  next =>
    cases h
    exact ⟨none, rfl, nofun, rfl⟩

theorem exists_digits_of_scanExponentDigits {negative : Bool} {e : Option (Bool × List Nat)}
    (h : scanExponentDigits negative s = some (e, r)) :
    ∃ t, s = t ++ r ∧ Digits t ∧ e = some (negative, digitValues t) := by
  unfold scanExponentDigits at h
  split at h
  next => cases h
  next ds r' hempty hspan =>
    cases h
    obtain ⟨t, hs, ht, rfl⟩ := exists_digits_of_ne_nil hspan hempty
    exact ⟨t, hs, ht, rfl⟩

theorem exists_text_of_scanSignedExponent {e : Option (Bool × List Nat)}
    (h : scanSignedExponent s = some (e, r)) :
    ∃ t, s = t ++ r ∧ ∀ r, (∀ c ∈ r.head?, c.isDigit = false) →
      scanSignedExponent (t ++ r) = some (e, r) := by
  have hdigits {negative : Bool} {s : List Char} (h : scanExponentDigits negative s = some (e, r)) :
      ∃ t, s = t ++ r ∧ Digits t ∧ ∀ r, (∀ c ∈ r.head?, c.isDigit = false) →
        scanExponentDigits negative (t ++ r) = some (e, r) := by
    obtain ⟨t, hs, ht, rfl⟩ := exists_digits_of_scanExponentDigits h
    exact ⟨t, hs, ht, fun r hr => Numeral.scanExponentDigits_append negative ht hr⟩
  unfold scanSignedExponent at h
  split at h
  next s =>
    obtain ⟨t, rfl, -, hread⟩ := hdigits h
    exact ⟨'+' :: t, rfl, hread⟩
  next s =>
    obtain ⟨t, rfl, -, hread⟩ := hdigits h
    exact ⟨'-' :: t, rfl, hread⟩
  next hplus hminus =>
    obtain ⟨t, rfl, ht, hread⟩ := hdigits h
    obtain ⟨c, t, rfl⟩ := List.exists_cons_of_ne_nil ht.1
    refine ⟨c :: t, rfl, fun r' hr' => ?_⟩
    rw [← hread r' hr', List.cons_append, scanSignedExponent]
    · rintro s ⟨⟩
      exact hplus _ rfl
    · rintro s ⟨⟩
      exact hminus _ rfl

theorem exists_text_of_scanExponent {e : Option (Bool × List Nat)}
    (h : scanExponent s = some (e, r)) :
    ∃ t, s = t ++ r ∧ ∀ r, EndsNumber r → scanExponent (t ++ r) = some (e, r) ∧
      ∀ c ∈ (t ++ r).head?, c.isDigit = false ∧ c ≠ '.' := by
  unfold scanExponent at h
  split at h
  next s =>
    obtain ⟨t, rfl, hread⟩ := exists_text_of_scanSignedExponent h
    refine ⟨'e' :: t, rfl, fun r hr => ⟨hread r fun c hc => (hr c hc).1, ?_⟩⟩
    rintro _ ⟨⟩
    decide
  next s =>
    obtain ⟨t, rfl, hread⟩ := exists_text_of_scanSignedExponent h
    refine ⟨'E' :: t, rfl, fun r hr => ⟨hread r fun c hc => (hr c hc).1, ?_⟩⟩
    rintro _ ⟨⟩
    decide
  next =>
    cases h
    exact ⟨[], rfl, fun r hr => ⟨Numeral.scanExponent_append (e := none) nofun hr,
      fun c hc => ⟨(hr c hc).1, (hr c hc).2.1⟩⟩⟩

theorem scanSign_eq (s : List Char) :
    (∃ s', s = '-' :: s' ∧ scanSign s = (true, s')) ∨
      s.head? ≠ some '-' ∧ scanSign s = (false, s) := by
  unfold scanSign
  split
  next s' => exact .inl ⟨s', rfl, rfl⟩
  next hminus =>
    refine .inr ⟨fun hhead => ?_, rfl⟩
    obtain ⟨s', rfl⟩ := List.head?_eq_some_iff.mp hhead
    exact hminus s' rfl

def scanUnsigned (negative : Bool) (s : List Char) : Option (NumberText × List Char) := do
  let (whole, s) ← scanWhole s
  let (fraction, s) ← scanFraction s
  let (exponent, s) ← scanExponent s
  return ({ negative, whole, fraction, exponent }, s)

theorem scanNumber_eq (s : List Char) :
    scanNumber s = scanUnsigned (scanSign s).1 (scanSign s).2 := rfl

theorem exists_text_of_scanUnsigned {negative : Bool}
    (h : scanUnsigned negative s = some (parts, r)) :
    ∃ c t, s = c :: t ++ r ∧ c.isDigit = true ∧
      ∀ r, EndsNumber r → scanUnsigned negative (c :: t ++ r) = some (parts, r) := by
  simp only [scanUnsigned, Option.bind_eq_bind, Option.bind_eq_some_iff, Option.pure_def] at h
  obtain ⟨⟨ds, s₁⟩, hwhole, ⟨f, s₂⟩, hfraction, ⟨e, s₃⟩, hexponent, h⟩ := h
  cases h
  obtain ⟨whole, rfl, hdigits, hzero, rfl⟩ := exists_digits_of_scanWhole hwhole
  obtain ⟨fraction, rfl, hf, rfl⟩ := exists_text_of_scanFraction hfraction
  obtain ⟨exponent, rfl, he⟩ := exists_text_of_scanExponent hexponent
  obtain ⟨c, whole, rfl⟩ := List.exists_cons_of_ne_nil hdigits.1
  refine ⟨c, whole ++ (Numeral.fractionText fraction ++ exponent), by simp,
    hdigits.2 c List.mem_cons_self, fun r hr => ?_⟩
  obtain ⟨hread, hhead⟩ := he r hr
  have hnext : ∀ c ∈ (Numeral.fractionText fraction ++ (exponent ++ r)).head?,
      c.isDigit = false := by
    cases fraction with
    | none => exact fun c hc => (hhead c hc).1
    | some ds =>
        rintro _ ⟨⟩
        rfl
  have htext : c :: (whole ++ (Numeral.fractionText fraction ++ exponent)) ++ r =
      (c :: whole) ++ (Numeral.fractionText fraction ++ (exponent ++ r)) := by simp
  simp only [htext, scanUnsigned, Numeral.scanWhole_append hdigits hzero hnext,
    Numeral.scanFraction_append hf hhead, hread, Option.bind_eq_bind, Option.bind_some,
    Option.pure_def]

theorem exists_text_of_scanNumber (h : scanNumber s = some (parts, r)) :
    ∃ c t, s = c :: t ++ r ∧ (c = '-' ∨ c.isDigit = true) ∧
      ∀ r, EndsNumber r → scanNumber (c :: t ++ r) = some (parts, r) := by
  rw [scanNumber_eq] at h
  obtain ⟨s, rfl, hsign⟩ | ⟨hhead, hsign⟩ := scanSign_eq s
  · rw [hsign] at h
    obtain ⟨c, t, rfl, -, hread⟩ := exists_text_of_scanUnsigned h
    exact ⟨'-', c :: t, rfl, .inl rfl, hread⟩
  · rw [hsign] at h
    obtain ⟨c, t, rfl, hc, hread⟩ := exists_text_of_scanUnsigned h
    refine ⟨c, t, rfl, .inr hc, fun r hr => ?_⟩
    obtain ⟨s, hs, -⟩ | ⟨-, hsign⟩ := scanSign_eq (c :: t ++ r)
    · rw [List.head_eq_of_cons_eq hs] at hc
      cases hc
    · rw [scanNumber_eq, hsign]
      exact hread r hr

/-- The reader of a number begins with a sign or a digit, and depends on nothing that comes after
the number. -/
def EndsWithNumber (num : List Char → Option (α × List Char)) : Prop :=
  ∀ s x r, num s = some (x, r) → ∃ c t, s = c :: t ++ r ∧ (c = '-' ∨ c.isDigit = true) ∧
    ∀ r, EndsNumber r → num (c :: t ++ r) = some (x, r)

theorem endsWithNumber_readNumber : EndsWithNumber readNumber := by
  intro s x r h
  simp only [readNumber, Option.bind_eq_bind, Option.bind_eq_some_iff, Option.pure_def] at h
  obtain ⟨⟨parts, r'⟩, hscan, x', hx, h⟩ := h
  cases h
  obtain ⟨c, t, hs, hc, hread⟩ := exists_text_of_scanNumber hscan
  refine ⟨c, t, hs, hc, fun r hr => ?_⟩
  simp only [readNumber, hread r hr, hx, Option.bind_eq_bind, Option.bind_some, Option.pure_def]

def passNumber (s : List Char) : Option (Unit × List Char) :=
  (scanNumber s).map fun x => ((), x.2)

theorem endsWithNumber_passNumber : EndsWithNumber passNumber := by
  intro s x r h
  obtain ⟨⟨parts, r'⟩, hscan, h⟩ := Option.map_eq_some_iff.mp h
  cases h
  obtain ⟨c, t, hs, hc, hread⟩ := exists_text_of_scanNumber hscan
  refine ⟨c, t, hs, hc, fun r hr => ?_⟩
  simp only [passNumber, hread r hr, Option.map_some]

end LightServer.Json
