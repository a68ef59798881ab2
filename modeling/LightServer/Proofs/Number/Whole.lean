import LightServer.Number.Binary64

/-!
# Whole numbers are exact

A natural number below `2 ^ 53` is its own nearest binary number. Its digits fit in a
mantissa, so that measured in units that leave the mantissa full nothing is rounded.
-/

namespace LightServer.Binary64

variable {n m k : Nat} {x : Binary64}

def IsNat (x : Binary64) (n : Nat) : Prop :=
  x.negative = false ∧ x.quotient.1 = n * x.quotient.2

instance (x : Binary64) (n : Nat) : Decidable (x.IsNat n) :=
  inferInstanceAs (Decidable (_ ∧ _))

theorem quotient_snd_pos (x : Binary64) : 0 < x.quotient.2 := by
  unfold quotient
  split
  · exact Nat.one_pos
  · exact Nat.two_pow_pos _

/-- A number is one natural number at most. -/
theorem IsNat.unique (hn : x.IsNat n) (hm : x.IsNat m) : n = m :=
  Nat.eq_of_mul_eq_mul_right x.quotient_snd_pos (hn.2.symm.trans hm.2)

theorem isNat_zero : zero.IsNat 0 := by
  refine ⟨rfl, ?_⟩
  rw [Nat.zero_mul]
  rfl

/-- A mantissa in units of a negative power of two. -/
theorem isNat_mul_pow (n k : Nat) : IsNat ⟨false, n * Nat.pow 2 k, -k⟩ n := by
  refine ⟨rfl, ?_⟩
  unfold quotient
  rcases Nat.eq_zero_or_pos k with rfl | hk
  · exact Nat.mul_one _
  · rw [if_neg (by simp only; omega)]
    simp only [Int.neg_neg, Int.toNat_natCast]

/-- Units that divide a number leave nothing to round. -/
theorem roundAt_neg (n k : Nat) : roundAt n 1 (-k) = n * Nat.pow 2 k := by
  have hround : ∀ q, roundQuotient q 1 = q := by
    intro q
    simp [roundQuotient, Nat.mod_one]
  unfold roundAt inUnits
  rcases Nat.eq_zero_or_pos k with rfl | hk
  · exact (hround n).trans (Nat.mul_one n).symm
  · rw [if_neg (by omega)]
    simp only [Int.neg_neg, Int.toNat_natCast]
    exact hround _

theorem ofScaled?_of_lt {e : Int} (hm : m < Nat.pow 2 53) (he : e ≤ maxExponent) :
    ofScaled? m e = some ⟨false, m, e⟩ := by
  unfold ofScaled?
  rw [if_neg (Nat.ne_of_lt hm)]
  exact if_pos he

/-- A natural number below `2 ^ 53` is a binary number. -/
theorem exists_ofNat?_eq_some (hn : n < Nat.pow 2 53) : ∃ x, ofNat? n = some x ∧ x.IsNat n := by
  rcases Nat.eq_zero_or_pos n with rfl | hpos
  · exact ⟨zero, rfl, isNat_zero⟩
  have hne : n ≠ 0 := Nat.ne_of_gt hpos
  have hlow : Nat.pow 2 (Nat.log2 n) ≤ n := Nat.log2_self_le hne
  have hhigh : n < Nat.pow 2 (Nat.log2 n + 1) := Nat.lt_log2_self
  obtain ⟨k, hk⟩ : ∃ k, Nat.log2 n + k = 52 := by
    have hlog : Nat.log2 n < 53 := (Nat.log2_lt hne).mpr hn
    exact ⟨52 - Nat.log2 n, by omega⟩
  have hexponent : max ((Nat.log2 n : Int) - Nat.log2 1 - 53) minExponent = -(k + 1 : Nat) := by
    have hone : Nat.log2 1 = 0 := rfl
    rw [hone, minExponent]
    omega
  -- one unit less and the mantissa would have a digit too many
  have hover : ¬ n * Nat.pow 2 (k + 1) < Nat.pow 2 53 := by
    have hpow : Nat.pow 2 53 = Nat.pow 2 (Nat.log2 n) * Nat.pow 2 (k + 1) := by
      rw [show 53 = Nat.log2 n + (k + 1) by omega]
      exact Nat.pow_add 2 _ _
    rw [Nat.not_lt, hpow]
    exact Nat.mul_le_mul_right _ hlow
  have hfits : n * Nat.pow 2 k < Nat.pow 2 53 := by
    have hpow : Nat.pow 2 53 = Nat.pow 2 (Nat.log2 n + 1) * Nat.pow 2 k := by
      rw [show 53 = Nat.log2 n + 1 + k by omega]
      exact Nat.pow_add 2 _ _
    rw [hpow]
    exact Nat.mul_lt_mul_of_pos_right hhigh (Nat.two_pow_pos k)
  refine ⟨⟨false, n * Nat.pow 2 k, -k⟩, ?_, isNat_mul_pow n k⟩
  have hnext : (-(k + 1 : Nat) : Int) + 1 = -k := by omega
  have hmax : (-k : Int) ≤ maxExponent := by
    rw [maxExponent]
    omega
  unfold ofNat? ofQuotient?
  rw [if_neg hne]
  simp only [hexponent, roundAt_neg, if_neg hover, hnext]
  exact ofScaled?_of_lt hfits hmax

end LightServer.Binary64
