import LightServer.Proofs.Outcome
import LightServer.Proofs.Text.Trimming
import LightServer.Text.Integer

/-!
# Literals of whole numbers

A numeral is decimal digits, of which there is at least one, and a literal is a
numeral that may have a sign in front. A reader with a range takes the literals of
the numbers in it and nothing else, and reads back what was written. No literal has a
blank or a colon in it.
-/

namespace LightServer.Text

open Outcome

variable {limit acc n : Nat} {excess : IntegerFault} {c : Char} {s t l r : List Char} {i : Int}

structure IsNumeral (s : List Char) (n : Nat) : Prop where
  ne_nil : s ≠ []
  isDigit : ∀ c ∈ s, c.isDigit = true
  value : Nat.ofDigitChars 10 s 0 = n

inductive IsLiteral : List Char → Int → Prop
  | bare {s : List Char} {n : Nat} (h : IsNumeral s n) : IsLiteral s n
  | plus {s : List Char} {n : Nat} (h : IsNumeral s n) : IsLiteral ('+' :: s) n
  | minus {s : List Char} {n : Nat} (h : IsNumeral s n) : IsLiteral ('-' :: s) (-(n : Int))

inductive IsUnsigned : List Char → Nat → Prop
  | bare {s : List Char} {n : Nat} (h : IsNumeral s n) : IsUnsigned s n
  | plus {s : List Char} {n : Nat} (h : IsNumeral s n) : IsUnsigned ('+' :: s) n

theorem le_ofDigitChars (s : List Char) (acc : Nat) : acc ≤ Nat.ofDigitChars 10 s acc := by
  rw [Nat.ofDigitChars_eq_ofDigitChars_zero]
  have hpow : 0 < 10 ^ s.length := Nat.pow_pos (by decide)
  have := Nat.le_mul_of_pos_left acc hpow
  omega

theorem digitValue?_of_isDigit (h : c.isDigit = true) : digitValue? c = some (c.toNat - 48) :=
  if_pos h

theorem readDigits_eq_ok_iff (hacc : acc ≤ limit) :
    readDigits limit excess acc s = .ok n ↔
      (∀ c ∈ s, c.isDigit = true) ∧ Nat.ofDigitChars 10 s acc = n ∧ n ≤ limit := by
  induction s generalizing acc with
  | nil =>
      simp only [readDigits, Except.ok.injEq, List.not_mem_nil, false_implies, implies_true,
        true_and, Nat.ofDigitChars_nil]
      exact ⟨fun h => ⟨h, h ▸ hacc⟩, fun h => h.1⟩
  | cons c s ih =>
      simp only [readDigits, List.forall_mem_cons, Nat.ofDigitChars_cons]
      rw [show '0'.toNat = 48 from rfl, Nat.mul_comm 10 acc]
      by_cases hdigit : c.isDigit = true
      · simp only [digitValue?_of_isDigit hdigit, hdigit, true_and]
        split
        next hle => exact ih hle
        next hle =>
          -- the number only grows with more digits
          have hgrows := le_ofDigitChars s (acc * 10 + (c.toNat - 48))
          refine iff_of_false (by rintro ⟨⟩) fun h => ?_
          obtain ⟨-, hn, hlimit⟩ := h
          omega
      · rw [digitValue?, if_neg hdigit]
        exact iff_of_false (by rintro ⟨⟩) fun h => hdigit h.1.1

theorem readUnsigned_eq_ok_iff :
    readUnsigned limit excess s = .ok n ↔ IsNumeral s n ∧ n ≤ limit := by
  cases s with
  | nil => exact iff_of_false nofun fun h => h.1.ne_nil rfl
  | cons c s =>
      rw [readUnsigned, readDigits_eq_ok_iff (Nat.zero_le limit)]
      · exact ⟨fun ⟨hdigit, hvalue, hle⟩ => ⟨⟨List.cons_ne_nil c s, hdigit, hvalue⟩, hle⟩,
          fun ⟨h, hle⟩ => ⟨h.isDigit, h.value, hle⟩⟩
      · exact nofun

theorem not_isNumeral_cons (h : c.isDigit = false) : ¬ IsNumeral (c :: s) n := fun hs => by
  have := hs.isDigit c List.mem_cons_self
  rw [h] at this
  cases this

/-- What a reader of numbers without a sign takes. -/
theorem readNat_eq_ok_iff : readNat limit s = .ok n ↔ IsUnsigned s n ∧ n ≤ limit := by
  match s with
  | [] =>
      refine iff_of_false nofun fun ⟨h, _⟩ => ?_
      cases h with
      | bare h => exact h.ne_nil rfl
  | c :: s =>
      by_cases hplus : c = '+'
      · subst hplus
        rw [readNat, readUnsigned_eq_ok_iff]
        refine and_congr_left fun _ => ⟨.plus, fun h => ?_⟩
        cases h with
        | bare h => exact absurd h (not_isNumeral_cons rfl)
        | plus h => exact h
      · have hread : readNat limit (c :: s) = readUnsigned limit .tooLarge (c :: s) := by
          unfold readNat
          split
          next h => cases h
          next h => exact absurd (List.head_eq_of_cons_eq h) hplus
          next => rfl
        rw [hread, readUnsigned_eq_ok_iff]
        refine and_congr_left fun _ => ⟨.bare, fun h => ?_⟩
        cases h with
        | bare h => exact h
        | plus h => exact absurd rfl hplus

theorem isLiteral_plus_iff : IsLiteral ('+' :: s) i ↔ ∃ n : Nat, IsNumeral s n ∧ i = n := by
  constructor
  · intro h
    cases h with
    | bare h => exact absurd h (not_isNumeral_cons rfl)
    | plus h => exact ⟨_, h, rfl⟩
  · rintro ⟨n, h, rfl⟩
    exact .plus h

theorem isLiteral_minus_iff : IsLiteral ('-' :: s) i ↔ ∃ n : Nat, IsNumeral s n ∧ i = -n := by
  constructor
  · intro h
    cases h with
    | bare h => exact absurd h (not_isNumeral_cons rfl)
    | minus h => exact ⟨_, h, rfl⟩
  · rintro ⟨n, h, rfl⟩
    exact .minus h

theorem isLiteral_iff_of_ne (hplus : c ≠ '+') (hminus : c ≠ '-') :
    IsLiteral (c :: s) i ↔ ∃ n : Nat, IsNumeral (c :: s) n ∧ i = n := by
  constructor
  · intro h
    cases h with
    | bare h => exact ⟨_, h, rfl⟩
    | plus h => exact absurd rfl hplus
    | minus h => exact absurd rfl hminus
  · rintro ⟨n, h, rfl⟩
    exact .bare h

theorem readInt_minus (limit : Nat) (s : List Char) : readInt limit ('-' :: s) =
    Except.map (fun n : Nat => -(n : Int)) (readUnsigned (limit + 1) .tooSmall s) := by
  rw [readInt]
  cases readUnsigned (limit + 1) .tooSmall s <;> rfl

/-- What a reader of numbers with a sign takes. -/
theorem readInt_eq_ok_iff :
    readInt limit s = .ok i ↔ IsLiteral s i ∧ -(limit + 1 : Int) ≤ i ∧ i ≤ limit := by
  match s with
  | [] =>
      refine iff_of_false nofun fun ⟨h, _⟩ => ?_
      cases h with
      | bare h => exact h.ne_nil rfl
  | c :: s =>
      by_cases hplus : c = '+'
      · subst hplus
        simp only [readInt, map_eq_ok_iff, readUnsigned_eq_ok_iff, isLiteral_plus_iff]
        constructor
        · rintro ⟨n, ⟨hs, hle⟩, rfl⟩
          exact ⟨⟨n, hs, rfl⟩, by simp only [Int.ofNat_eq_natCast]; omega⟩
        · rintro ⟨⟨n, hs, rfl⟩, -, hle⟩
          exact ⟨n, ⟨hs, by omega⟩, rfl⟩
      · by_cases hminus : c = '-'
        · subst hminus
          simp only [readInt_minus, map_eq_ok_iff, readUnsigned_eq_ok_iff, isLiteral_minus_iff]
          constructor
          · rintro ⟨n, ⟨hs, hle⟩, rfl⟩
            exact ⟨⟨n, hs, rfl⟩, by omega⟩
          · rintro ⟨⟨n, hs, rfl⟩, hle, -⟩
            exact ⟨n, ⟨hs, by omega⟩, rfl⟩
        · have hread : readInt limit (c :: s) =
              (readUnsigned limit .tooLarge (c :: s)).map Int.ofNat := by
            unfold readInt
            split
            next h => cases h
            next h => exact absurd (List.head_eq_of_cons_eq h) hplus
            next h => exact absurd (List.head_eq_of_cons_eq h) hminus
            next => rfl
          simp only [hread, map_eq_ok_iff, readUnsigned_eq_ok_iff, isLiteral_iff_of_ne hplus hminus]
          constructor
          · rintro ⟨n, ⟨hs, hle⟩, rfl⟩
            exact ⟨⟨n, hs, rfl⟩, by simp only [Int.ofNat_eq_natCast]; omega⟩
          · rintro ⟨⟨n, hs, rfl⟩, -, hle⟩
            exact ⟨n, ⟨hs, by omega⟩, rfl⟩

theorem isBlank_of_isDigit (h : c.isDigit = true) : isBlank c = false := by
  have hbounds := Char.isDigit_iff_toNat.mp h
  unfold isBlank
  grind

/-- The characters of a literal are no blanks and no colons. -/
theorem IsLiteral.of_mem (h : IsLiteral s i) (hc : c ∈ s) : isBlank c = false ∧ c ≠ ':' := by
  have hdigit {c : Char} (h : c.isDigit = true) : isBlank c = false ∧ c ≠ ':' :=
    ⟨isBlank_of_isDigit h, by rintro rfl; cases h⟩
  cases h with
  | bare h => exact hdigit (h.isDigit c hc)
  | plus h =>
      obtain rfl | hc := List.mem_cons.mp hc
      · exact ⟨rfl, by decide⟩
      · exact hdigit (h.isDigit c hc)
  | minus h =>
      obtain rfl | hc := List.mem_cons.mp hc
      · exact ⟨rfl, by decide⟩
      · exact hdigit (h.isDigit c hc)

theorem IsLiteral.isTrimmed (h : IsLiteral s i) : IsTrimmed s :=
  isTrimmed_of_forall fun _ hc => (h.of_mem hc).1

theorem isNumeral_toDigits (n : Nat) : IsNumeral (Nat.toDigits 10 n) n where
  ne_nil := Nat.toDigits_ne_nil
  isDigit _ hc := Nat.isDigit_of_mem_toDigits (by decide) (by decide) hc
  value := Nat.ofDigitChars_ten_toDigits

theorem isUnsigned_decimal (n : Nat) : IsUnsigned (decimal n).toList n := by
  rw [decimal, String.toList_ofList]
  exact .bare (isNumeral_toDigits n)

/-- A number is written as a literal of it. -/
theorem isLiteral_decimalInt (i : Int) : IsLiteral (decimalInt i).toList i := by
  cases i with
  | ofNat n =>
      rw [decimalInt, decimal, String.toList_ofList]
      exact .bare (isNumeral_toDigits n)
  | negSucc n =>
      have htext : (decimalInt (.negSucc n)).toList = '-' :: Nat.toDigits 10 (n + 1) := by
        simp [decimalInt, decimal]
      rw [htext]
      exact .minus (isNumeral_toDigits (n + 1))

end LightServer.Text
