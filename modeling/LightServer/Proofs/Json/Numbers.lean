import LightServer.Json.Number
import LightServer.Number.Shortest
import Mathlib.Data.List.Basic

/-!
# Numbers as they are written

A number is written with a sign or none, with digits before the point of which the
first one is no superfluous zero, and perhaps with digits after a point and with an
exponent that has a sign. Whatever number is written and whatever follows it, as long
as that cannot be part of a number, scanning finds the parts that were written and
stops behind them.
-/

namespace LightServer

namespace Json

variable {c : Char} {ds s r : List Char} {n : Nat}

/-- What follows a number in a text, and is no part of it. -/
def EndsNumber (r : List Char) : Prop :=
  ∀ c ∈ r.head?, c.isDigit = false ∧ c ≠ '.' ∧ c ≠ 'e' ∧ c ≠ 'E'

theorem endsNumber_nil : EndsNumber [] := nofun

theorem endsNumber_cons (hdigit : c.isDigit = false) (hpoint : c ≠ '.') (he : c ≠ 'e')
    (hE : c ≠ 'E') : EndsNumber (c :: r) := by
  rintro _ ⟨⟩
  exact ⟨hdigit, hpoint, he, hE⟩

def digitValues (ds : List Char) : List Nat := ds.map fun c => c.toNat - 48

theorem ofDigits_digitValues (ds : List Char) :
    ofDigits (digitValues ds) = Nat.ofDigitChars 10 ds 0 := by
  rw [ofDigits, digitValues, List.foldl_map, Nat.ofDigitChars]
  rfl

theorem spanDigits_of_head (hr : ∀ c ∈ r.head?, c.isDigit = false) : spanDigits r = ([], r) := by
  cases r with
  | nil => rfl
  | cons c r =>
      have hdigit : ¬ c.isDigit = true := by simp [hr c rfl]
      simp only [spanDigits, Text.digitValue?, if_neg hdigit]

theorem spanDigits_append (hds : ∀ c ∈ ds, c.isDigit = true)
    (hr : ∀ c ∈ r.head?, c.isDigit = false) : spanDigits (ds ++ r) = (digitValues ds, r) := by
  induction ds with
  | nil => exact spanDigits_of_head hr
  | cons c ds ih =>
      obtain ⟨hc, hds⟩ := List.forall_mem_cons.mp hds
      simp only [List.cons_append, spanDigits, Text.digitValue?, if_pos hc, ih hds]
      rfl

def Digits (ds : List Char) : Prop := ds ≠ [] ∧ ∀ c ∈ ds, c.isDigit = true

theorem Digits.append {es : List Char} (hds : Digits ds) (hes : ∀ c ∈ es, c.isDigit = true) :
    Digits (ds ++ es) :=
  ⟨List.append_ne_nil_of_left_ne_nil hds.1 es, List.forall_mem_append.mpr ⟨hds.2, hes⟩⟩

theorem digits_zero : Digits ['0'] := ⟨List.cons_ne_nil _ _, List.forall_mem_singleton.mpr rfl⟩

theorem digits_toDigits (n : Nat) : Digits (Nat.toDigits 10 n) :=
  ⟨Nat.toDigits_ne_nil, fun _ hc => Nat.isDigit_of_mem_toDigits (by decide) (by decide) hc⟩

abbrev WrittenExponent := Bool × List Char

structure Numeral where
  negative : Bool
  whole : List Char
  fraction : Option (List Char) := none
  exponent : Option WrittenExponent := none

namespace Numeral

def fractionText : Option (List Char) → List Char
  | none => []
  | some ds => '.' :: ds

def exponentText : Option WrittenExponent → List Char
  | none => []
  | some (negative, ds) => 'e' :: (if negative then '-' else '+') :: ds

def text (n : Numeral) : List Char :=
  (if n.negative then ['-'] else []) ++ (n.whole ++ (fractionText n.fraction ++
    exponentText n.exponent))

def parts (n : Numeral) : NumberText where
  negative := n.negative
  whole := digitValues n.whole
  fraction := n.fraction.map digitValues
  exponent := n.exponent.map fun e => (e.1, digitValues e.2)

structure WellFormed (n : Numeral) : Prop where
  whole : Digits n.whole
  no_zero : n.whole.head? = some '0' → n.whole = ['0']
  fraction : ∀ ds ∈ n.fraction, Digits ds
  exponent : ∀ e ∈ n.exponent, Digits e.2

theorem head_exponentText {e : Option WrittenExponent} (hr : EndsNumber r) :
    ∀ c ∈ (exponentText e ++ r).head?, c.isDigit = false ∧ c ≠ '.' := by
  cases e with
  | none => exact fun c hc => ⟨(hr c hc).1, (hr c hc).2.1⟩
  | some e =>
      rintro _ ⟨⟩
      decide

theorem head_fractionText {f : Option (List Char)} {e : Option WrittenExponent}
    (hr : EndsNumber r) :
    ∀ c ∈ (fractionText f ++ (exponentText e ++ r)).head?, c.isDigit = false := by
  cases f with
  | none => exact fun c hc => (head_exponentText hr c hc).1
  | some ds =>
      rintro _ ⟨⟩
      rfl

theorem scanWhole_append (hds : Digits ds) (hzero : ds.head? = some '0' → ds = ['0'])
    (hr : ∀ c ∈ r.head?, c.isDigit = false) :
    scanWhole (ds ++ r) = some (digitValues ds, r) := by
  rw [scanWhole, spanDigits_append hds.2 hr]
  obtain ⟨c, ds, rfl⟩ := List.exists_cons_of_ne_nil hds.1
  have hc := Char.isDigit_iff_toNat.mp (hds.2 c List.mem_cons_self)
  simp only [digitValues, List.map_cons]
  split
  next h => cases h
  next h =>
    -- two digits with a zero in front
    obtain ⟨hvalue, hds'⟩ := List.cons.inj (Prod.mk.inj h).1
    have h48 : c.toNat = '0'.toNat := by
      have : '0'.toNat = 48 := rfl
      omega
    have hc0 : c = '0' := Char.toNat_inj.mp h48
    subst hc0
    rw [(List.cons.inj (hzero rfl)).2] at hds'
    cases hds'
  next h =>
    cases h
    rfl

theorem scanFraction_append {f : Option (List Char)} (hf : ∀ ds ∈ f, Digits ds)
    (hr : ∀ c ∈ r.head?, c.isDigit = false ∧ c ≠ '.') :
    scanFraction (fractionText f ++ r) = some (f.map digitValues, r) := by
  cases f with
  | none =>
      unfold scanFraction
      split
      next s h =>
        have hhead : r = '.' :: s := h
        exact absurd rfl (hr '.' (hhead ▸ rfl)).2
      next => rfl
  | some ds =>
      have hds := hf ds rfl
      simp only [fractionText, List.cons_append, scanFraction,
        spanDigits_append hds.2 fun c hc => (hr c hc).1]
      split
      next h =>
        obtain ⟨c, ds, rfl⟩ := List.exists_cons_of_ne_nil hds.1
        cases h
      next h =>
        cases h
        rfl

theorem scanExponentDigits_append (negative : Bool) (hds : Digits ds)
    (hr : ∀ c ∈ r.head?, c.isDigit = false) :
    scanExponentDigits negative (ds ++ r) = some (some (negative, digitValues ds), r) := by
  rw [scanExponentDigits, spanDigits_append hds.2 hr]
  obtain ⟨c, ds, rfl⟩ := List.exists_cons_of_ne_nil hds.1
  rfl

theorem scanExponent_append {e : Option WrittenExponent} (he : ∀ x ∈ e, Digits x.2)
    (hr : EndsNumber r) :
    scanExponent (exponentText e ++ r) = some (e.map fun x => (x.1, digitValues x.2), r) := by
  have hdigit : ∀ c ∈ r.head?, c.isDigit = false := fun c hc => (hr c hc).1
  rcases e with - | ⟨⟨⟩ | ⟨⟩, ds⟩
  · unfold scanExponent
    split
    next s h =>
      have hhead : r = 'e' :: s := h
      exact absurd rfl (hr 'e' (hhead ▸ rfl)).2.2.1
    next s h =>
      have hhead : r = 'E' :: s := h
      exact absurd rfl (hr 'E' (hhead ▸ rfl)).2.2.2
    next => rfl
  · exact scanExponentDigits_append false (he _ rfl) hdigit
  · exact scanExponentDigits_append true (he _ rfl) hdigit

theorem scanSign_text (n : Numeral) (hn : n.WellFormed) (r : List Char) :
    scanSign (n.text ++ r) = (n.negative,
      n.whole ++ (fractionText n.fraction ++ (exponentText n.exponent ++ r))) := by
  obtain ⟨negative, whole, f, e⟩ := n
  cases negative with
  | true => simp [text, scanSign]
  | false =>
      obtain ⟨c, ds, rfl⟩ := List.exists_cons_of_ne_nil hn.whole.1
      have hc : c ≠ '-' := by
        rintro rfl
        cases hn.whole.2 '-' List.mem_cons_self
      simp only [text, Bool.false_eq_true, if_false, List.nil_append, List.cons_append,
        List.append_assoc]
      unfold scanSign
      split
      next h => exact absurd (List.head_eq_of_cons_eq h) hc
      next => rfl

/-- Scanning finds what was written, and leaves what comes after it. -/
theorem scanNumber_text {n : Numeral} (hn : n.WellFormed) (hr : EndsNumber r) :
    scanNumber (n.text ++ r) = some (n.parts, r) := by
  rw [scanNumber, scanSign_text n hn]
  simp only [scanWhole_append hn.whole hn.no_zero (head_fractionText hr),
    scanFraction_append hn.fraction (head_exponentText hr), scanExponent_append hn.exponent hr,
    Option.bind_eq_bind, Option.bind_some]
  rfl

/-- The characters that numbers are written with. -/
theorem mem_text {n : Numeral} (hn : n.WellFormed) (hc : c ∈ n.text) :
    c.isDigit = true ∨ c ∈ ['-', '+', '.', 'e'] := by
  unfold text at hc
  obtain hc | hc | hc | hc := by simpa only [List.mem_append] using hc
  · split at hc
    · exact .inr (by simp [List.mem_singleton.mp hc])
    · cases hc
  · exact .inl (hn.whole.2 c hc)
  · cases hf : n.fraction with
    | none => simp [hf, fractionText] at hc
    | some ds =>
        rw [hf] at hc
        obtain rfl | hc := List.mem_cons.mp hc
        · exact .inr (by decide)
        · exact .inl ((hn.fraction ds hf).2 c hc)
  · cases he : n.exponent with
    | none => simp [he, exponentText] at hc
    | some e =>
        rw [he] at hc
        obtain rfl | hc := List.mem_cons.mp hc
        · exact .inr (by decide)
        obtain rfl | hc := List.mem_cons.mp hc
        · exact .inr (by split <;> decide)
        · exact .inl ((hn.exponent e he).2 c hc)

/-- A number begins with a sign or a digit. -/
theorem exists_text_eq_cons {n : Numeral} (hn : n.WellFormed) :
    ∃ c s, n.text = c :: s ∧ (c = '-' ∨ c.isDigit = true) := by
  obtain ⟨c, ds, hwhole⟩ := List.exists_cons_of_ne_nil hn.whole.1
  unfold text
  split
  · exact ⟨'-', _, rfl, .inl rfl⟩
  · rw [hwhole]
    exact ⟨c, _, rfl, .inr (hn.whole.2 c (hwhole ▸ List.mem_cons_self))⟩

end Numeral

theorem head?_toDigits_ne (hn : n ≠ 0) : (Nat.toDigits 10 n).head? ≠ some '0' := by
  induction n using Nat.strongRecOn with
  | ind n ih =>
      obtain hlt | hle := Nat.lt_or_ge n 10
      · rw [Nat.toDigits_of_lt_base hlt]
        simpa using hn
      · rw [Nat.toDigits_of_base_le (by decide) hle,
          List.head?_append_of_ne_nil _ Nat.toDigits_ne_nil]
        exact ih (n / 10) (by omega) (by omega)

theorem toDigits_eq_of_head? (h : (Nat.toDigits 10 n).head? = some '0') :
    Nat.toDigits 10 n = ['0'] := by
  by_cases hn : n = 0
  · subst hn
    rfl
  · exact absurd h (head?_toDigits_ne hn)

def Numeral.ofInt (i : Int) : Numeral :=
  { negative := i < 0, whole := Nat.toDigits 10 i.natAbs }

theorem Numeral.wellFormed_ofInt (i : Int) : (Numeral.ofInt i).WellFormed where
  whole := digits_toDigits _
  no_zero := toDigits_eq_of_head?
  fraction := nofun
  exponent := nofun

theorem Numeral.text_ofInt (i : Int) : (Numeral.ofInt i).text = (Text.decimalInt i).toList := by
  cases i with
  | ofNat n =>
      have hn : ¬ (n : Int) < 0 := by omega
      simp [ofInt, text, fractionText, exponentText, Text.decimalInt, Text.decimal, hn]
  | negSucc n =>
      simp [ofInt, text, fractionText, exponentText, Text.decimalInt, Text.decimal,
        Int.negSucc_lt_zero]

def Word64 (i : Int) : Prop := -(Text.maxInt64 + 1 : Int) ≤ i ∧ i ≤ Text.maxWord64

instance (i : Int) : Decidable (Word64 i) :=
  inferInstanceAs (Decidable (-(Text.maxInt64 + 1 : Int) ≤ i ∧ i ≤ Text.maxWord64))

/-- A whole number of 64 bits is read as what it was. -/
theorem value?_parts_ofInt {i : Int} (hi : Word64 i) :
    (Numeral.ofInt i).parts.value? = some (.integer i) := by
  unfold Word64 at hi
  have hwhole : ofDigits (Numeral.ofInt i).parts.whole = i.natAbs := by
    rw [Numeral.parts, ofDigits_digitValues]
    exact Nat.ofDigitChars_ten_toDigits
  unfold NumberText.value?
  simp only [Numeral.parts, Numeral.ofInt, Option.map_none, decide_eq_true_eq] at hwhole ⊢
  simp only [hwhole]
  split
  next hneg =>
    rw [if_pos (by omega)]
    congr 2
    omega
  next hneg =>
    rw [if_pos (by omega)]
    congr 2
    omega

end Json

namespace Shortest

open Json

variable {d : Decimal} {x : Binary64} {n : Neighbourhood} {k : Int}

/-- Of the decimals with no digit but zero only one is used. -/
def Decimal.Proper (d : Decimal) : Prop := d.digits = 0 → d.exponent = 0

theorem Decimal.Proper.strip (h : d.Proper) : d.strip.Proper := by
  induction d using Decimal.strip.induct with
  | case1 d hd ih =>
      rw [Decimal.strip, dif_pos hd]
      refine ih fun hzero => ?_
      simp only at hzero
      omega
  | case2 d hd =>
      rw [Decimal.strip, dif_neg hd]
      exact h

theorem fits_zero (hlow : 0 < n.low) (hunit : 0 < (gridSteps n k).2) : fits n k 0 = false := by
  have hpos : 0 < n.low * (gridSteps n k).2 := Nat.mul_pos hlow hunit
  unfold fits
  split
  · simp
    omega
  · simp

theorem digits_pos_of_onGrid? (hlow : 0 < n.low) (hunit : 0 < (gridSteps n k).2)
    (h : onGrid? n k = some d) : 0 < d.digits := by
  refine Nat.pos_of_ne_zero fun hzero => ?_
  have hfits : fits n k d.digits = true := by
    unfold onGrid? at h
    grind
  rw [hzero, fits_zero hlow hunit] at hfits
  cases hfits

theorem gridSteps_neighbourhood_pos (x : Binary64) (k : Int) :
    0 < (gridSteps (neighbourhood x) k).2 := by
  have hunit : 0 < (neighbourhood x).unit.1 := by
    unfold neighbourhood
    simp only
    split
    · exact Nat.pow_pos (by decide)
    · exact Nat.one_pos
  unfold gridSteps
  split
  · exact hunit
  · exact Nat.mul_pos hunit (Nat.pow_pos (by decide))

theorem low_neighbourhood_pos (hx : x.mantissa ≠ 0) : 0 < (neighbourhood x).low := by
  unfold neighbourhood
  simp only
  split <;> omega

theorem proper_decimal (x : Binary64) : (decimal x).Proper := by
  unfold decimal
  split
  · exact fun _ => rfl
  next hx =>
    refine Decimal.Proper.strip ?_
    cases hfound : ((List.range 17).map fun i =>
        places x.quotient.1 x.quotient.2 - (i + 1 : Nat)).findSome? (onGrid? (neighbourhood x)) with
    | none => exact fun _ => rfl
    | some d =>
        obtain ⟨k, -, hk⟩ := List.exists_of_findSome?_eq_some hfound
        have hpos := digits_pos_of_onGrid? (low_neighbourhood_pos hx)
          (gridSteps_neighbourhood_pos x k) hk
        intro (hzero : d.digits = 0)
        omega

/-- The positional form has digits in front of its point, or has no point. -/
theorem exists_positionalChars_eq (hd : d.Proper) : ∃ whole fraction,
    positionalChars d = whole ++ Numeral.fractionText fraction ∧ Digits whole ∧
      (whole.head? = some '0' → whole = ['0']) ∧ ∀ ds ∈ fraction, Digits ds := by
  have hdigits := digits_toDigits d.digits
  unfold positionalChars
  simp only
  split
  next he =>
    refine ⟨_, none, (List.append_nil _).symm, hdigits.append ?_, fun hhead => ?_, nofun⟩
    · intro c hc
      rw [List.eq_of_mem_replicate hc]
      rfl
    · rw [withZeros, List.head?_append_of_ne_nil _ hdigits.1] at hhead
      have hzero : d.digits = 0 := Decidable.byContradiction fun h => head?_toDigits_ne h hhead
      rw [withZeros, hd hzero, hzero]
      rfl
  next he =>
    have hnonzero : d.digits ≠ 0 := fun hzero => by
      have := hd hzero
      omega
    split
    next hafter =>
      refine ⟨_, some _, rfl, ⟨?_, fun c hc => hdigits.2 c (List.mem_of_mem_take hc)⟩,
        fun hhead => ?_, ?_⟩
      · exact List.ne_nil_of_length_pos (by rw [List.length_take]; omega)
      · rw [List.head?_take, if_neg (by omega)] at hhead
        exact absurd hhead (head?_toDigits_ne hnonzero)
      · rintro _ ⟨⟩
        exact ⟨List.ne_nil_of_length_pos (by rw [List.length_drop]; omega),
          fun c hc => hdigits.2 c (List.mem_of_mem_drop hc)⟩
    next =>
      refine ⟨['0'], some _, rfl, digits_zero, fun _ => rfl, ?_⟩
      rintro _ ⟨⟩
      refine ⟨List.append_ne_nil_of_right_ne_nil _ hdigits.1,
        List.forall_mem_append.mpr ⟨fun c hc => ?_, hdigits.2⟩⟩
      rw [List.eq_of_mem_replicate hc]
      rfl

theorem contains_point_of_digits {ds : List Char} (hds : Digits ds) :
    ds.contains '.' = false := by
  have hmem : '.' ∉ ds := fun h => by cases hds.2 '.' h
  simpa using hmem

/-- The form with an exponent has one digit in front of its point, or has no point. -/
theorem exists_scientificChars_eq (d : Decimal) : ∃ c fraction exponent,
    scientificChars d =
        [c] ++ (Numeral.fractionText fraction ++ Numeral.exponentText (some exponent)) ∧
      Digits [c] ∧ (∀ ds ∈ fraction, Digits ds) ∧ Digits exponent.2 := by
  obtain ⟨c, r, hr⟩ := List.exists_cons_of_ne_nil (Nat.toDigits_ne_nil (n := d.digits))
  have hdigits := List.forall_mem_cons.mp (hr ▸ (digits_toDigits d.digits).2)
  have hc : Digits [c] := ⟨List.cons_ne_nil _ _, List.forall_mem_singleton.mpr hdigits.1⟩
  let e := d.exponent + (Nat.toDigits 10 d.digits).length - 1
  let exponent : WrittenExponent := (decide (e < 0), Nat.toDigits 10 e.natAbs)
  have htext : scientificChars d = (if r.isEmpty then [c] else c :: '.' :: r) ++
      Numeral.exponentText (some exponent) := by
    simp only [scientificChars, hr, signedExponent, Numeral.exponentText, decide_eq_true_eq, e,
      exponent]
  have hexponent : Digits exponent.2 := digits_toDigits _
  cases r with
  | nil => exact ⟨c, none, exponent, htext, hc, nofun, hexponent⟩
  | cons d' r =>
      refine ⟨c, some (d' :: r), exponent, htext, hc, ?_, hexponent⟩
      rintro _ ⟨⟩
      exact ⟨List.cons_ne_nil _ _, hdigits.2⟩

theorem exists_numeral_signed {n : Numeral} (x : Binary64) (hn : n.WellFormed)
    (hparts : n.fraction = none → n.exponent ≠ none) :
    ∃ m : Numeral, m.WellFormed ∧ (signed x (n.whole ++ (Numeral.fractionText n.fraction ++
      Numeral.exponentText n.exponent))).toList = m.text ∧
        (m.fraction = none → m.exponent ≠ none) := by
  refine ⟨{ n with negative := x.negative },
    ⟨hn.whole, hn.no_zero, hn.fraction, hn.exponent⟩, ?_, hparts⟩
  unfold signed Numeral.text
  split <;> simp

theorem exists_numeral_pointed {whole ds : List Char} (x : Binary64) (hwhole : Digits whole)
    (hhead : whole.head? = some '0' → whole = ['0']) (hds : Digits ds) :
    ∃ n : Numeral, n.WellFormed ∧ (signed x (whole ++ '.' :: ds)).toList = n.text ∧
      (n.fraction = none → n.exponent ≠ none) := by
  have hn : Numeral.WellFormed ⟨false, whole, some ds, none⟩ :=
    ⟨hwhole, hhead, fun _ h => by cases h; exact hds, nofun⟩
  have h := exists_numeral_signed x hn nofun
  simpa only [Numeral.fractionText, Numeral.exponentText, List.append_nil] using h

/-- A number that is written as JSON has a point or an exponent. -/
theorem exists_numeral_json (x : Binary64) : ∃ n : Numeral, n.WellFormed ∧
    (json x).toList = n.text ∧ (n.fraction = none → n.exponent ≠ none) := by
  have hlone := exists_numeral_pointed x digits_zero (fun _ => rfl) digits_zero
  unfold json
  split
  · exact hlone
  simp only
  split
  · obtain ⟨whole, fraction, htext, hwhole, hhead, hfraction⟩ :=
      exists_positionalChars_eq (proper_decimal x)
    unfold positionalPointed
    simp only [htext]
    cases fraction with
    | none =>
        simp only [Numeral.fractionText, List.append_nil, contains_point_of_digits hwhole,
          Bool.false_eq_true, if_false]
        exact exists_numeral_pointed x hwhole hhead digits_zero
    | some ds =>
        rw [if_pos (by simp [Numeral.fractionText])]
        exact exists_numeral_pointed x hwhole hhead (hfraction ds rfl)
  · obtain ⟨c, fraction, exponent, htext, hc, hfraction, hexponent⟩ :=
      exists_scientificChars_eq (decimal x)
    have hn : Numeral.WellFormed ⟨false, [c], fraction, some exponent⟩ :=
      ⟨hc, fun h => by rw [Option.some.inj h], hfraction, fun _ h => by cases h; exact hexponent⟩
    have hsigned := exists_numeral_signed x hn nofun
    rw [htext]
    exact hsigned

end Shortest

end LightServer
