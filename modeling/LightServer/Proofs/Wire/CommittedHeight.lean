import LightServer.Sample.RawBlocks

/-!
# Heights that a coinbase commits to

A sample coinbase commits to its height in one of three forms: a zero, a small
number in one byte, or the bytes of a number behind their count. The last of
these bytes carries the sign, so a zero follows where it would be negative. The
height is read back from all three as long as its bytes, with that zero, are at
most eight. From `2 ^ 63` on there are nine, and no height is read at all.
-/

namespace LightServer

theorem Bytes.leNat_append (s t : Bytes) :
    leNat (s ++ t) = leNat s + Nat.pow 256 s.length * leNat t := by
  induction s with
  | nil => simp
  | cons b s ih =>
      have hpow : Nat.pow 256 (b :: s).length = 256 * Nat.pow 256 s.length := Nat.pow_succ'
      rw [List.cons_append, leNat_cons, leNat_cons, ih, hpow, Nat.mul_assoc]
      omega

theorem Bytes.leNat_singleton (b : UInt8) : leNat [b] = b.toNat := Nat.add_zero _

namespace Sample

open Wire

theorem leNat_minimalBytes (n : Nat) : Bytes.leNat (minimalBytes n) = n := by
  induction n using minimalBytes.induct with
  | case1 =>
      rw [minimalBytes, if_pos rfl]
      rfl
  | case2 n hn ih =>
      rw [minimalBytes, if_neg hn, Bytes.leNat_cons, ih, UInt8.toNat_ofNat']
      omega

/-- The last byte of a positive number is not zero. -/
theorem exists_minimalBytes_eq_concat {n : Nat} (hn : 0 < n) :
    ∃ s b, minimalBytes n = s ++ [b] ∧ 0 < b.toNat := by
  induction n using minimalBytes.induct with
  | case1 => exact absurd hn (Nat.lt_irrefl 0)
  | case2 n hne ih =>
      rw [minimalBytes, if_neg hne]
      by_cases hlast : n / 256 = 0
      · refine ⟨[], UInt8.ofNat n, ?_, ?_⟩
        · rw [hlast, minimalBytes, if_pos rfl]
          rfl
        · rw [UInt8.toNat_ofNat']
          omega
      · obtain ⟨s, b, hs, hb⟩ := ih (Nat.pos_of_ne_zero hlast)
        exact ⟨UInt8.ofNat n :: s, b, by rw [hs, List.cons_append], hb⟩

/-- A positive number lies between the bounds that its last byte sets. -/
theorem exists_bounds_minimalBytes {n : Nat} (hn : 0 < n) :
    ∃ s b, minimalBytes n = s ++ [b] ∧ 0 < b.toNat ∧ b.toNat < 256 ∧
      Nat.pow 256 s.length * b.toNat ≤ n ∧ n < Nat.pow 256 s.length * (b.toNat + 1) := by
  obtain ⟨s, b, hs, hb⟩ := exists_minimalBytes_eq_concat hn
  have hvalue := leNat_minimalBytes n
  have hlow := Bytes.leNat_lt s
  rw [hs, Bytes.leNat_append, Bytes.leNat_singleton] at hvalue
  refine ⟨s, b, hs, hb, b.toNat_lt, by omega, ?_⟩
  rw [Nat.mul_add_one]
  omega

/-- The bytes of a number with a zero behind them where the last one would be negative. -/
def signedBytes (n : Nat) : Bytes :=
  if 0x80 ≤ (minimalBytes n).getLastD 0 then minimalBytes n ++ [0] else minimalBytes n

theorem leNat_signedBytes (n : Nat) : Bytes.leNat (signedBytes n) = n := by
  unfold signedBytes
  split
  · rw [Bytes.leNat_append, leNat_minimalBytes]
    exact Nat.add_zero n
  · exact leNat_minimalBytes n

/-- Eight bytes suffice exactly for the numbers below `2 ^ 63`, and nine for all of 64 bits. -/
theorem length_signedBytes {n : Nat} (hpos : 0 < n) (hn : n < 0x10000000000000000) :
    1 ≤ (signedBytes n).length ∧ (signedBytes n).length ≤ 9 ∧
      ((signedBytes n).length ≤ 8 ↔ n < 0x8000000000000000) := by
  have hseven : Nat.pow 256 7 = 0x100000000000000 := rfl
  have hlimit : Nat.pow 256 8 = 0x10000000000000000 := rfl
  obtain ⟨s, b, hs, hb, hbyte, hle, hlt⟩ := exists_bounds_minimalBytes hpos
  have hlength : s.length ≤ 7 := by
    refine Nat.le_of_not_lt fun hlong => ?_
    have hpow : Nat.pow 256 8 ≤ Nat.pow 256 s.length := Nat.pow_le_pow_right (by decide) hlong
    have hmul := Nat.le_mul_of_pos_right (Nat.pow 256 s.length) hb
    omega
  have hpow : Nat.pow 256 s.length ≤ Nat.pow 256 7 := Nat.pow_le_pow_right (by decide) hlength
  have hlast : (minimalBytes n).getLastD 0 = b := by
    rw [hs, List.getLastD_concat]
  unfold signedBytes
  rw [hlast, hs]
  by_cases hsign : 0x80 ≤ b
  · -- the number has a zero behind it, so it is the eighth byte of its own that decides
    have hbig : 128 ≤ b.toNat := UInt8.le_iff_toNat_le.mp hsign
    rw [if_pos hsign]
    simp only [List.length_append, List.length_singleton]
    refine ⟨by omega, by omega, ?_⟩
    by_cases hfull : s.length = 7
    · rw [hfull, hseven] at hle
      omega
    · have hshort : Nat.pow 256 (s.length + 1) ≤ Nat.pow 256 7 :=
        Nat.pow_le_pow_right (by decide) (by omega)
      have hmul : Nat.pow 256 s.length * (b.toNat + 1) ≤ Nat.pow 256 (s.length + 1) :=
        Nat.mul_le_mul_left _ (by omega)
      omega
  · have hsmall : b.toNat < 128 := UInt8.lt_iff_toNat_lt.mp (UInt8.not_le.mp hsign)
    rw [if_neg hsign]
    simp only [List.length_append, List.length_singleton]
    have hmul := Nat.mul_le_mul hpow (show b.toNat + 1 ≤ 128 by omega)
    omega

theorem heightScript_of_lt {height : Nat} (h : 16 < height) :
    heightScript height = UInt8.ofNat (signedBytes height).length :: signedBytes height := by
  unfold heightScript
  rw [if_neg (by omega), if_neg (by omega)]
  rfl

/-- A count of one to eight bytes is followed by that number of bytes. -/
theorem coinbaseHeight?_count (s rest : Bytes) (hpos : 1 ≤ s.length) (hle : s.length ≤ 8) :
    coinbaseHeight? (UInt8.ofNat s.length :: (s ++ rest)) = some (Bytes.leNat s) := by
  have hcount : (UInt8.ofNat s.length).toNat = s.length := by
    rw [UInt8.toNat_ofNat']
    omega
  have htake : ∀ n, n = s.length →
      (Octets.take? n (s ++ rest)).map (fun p => p.1.toNat) = some (Bytes.leNat s) := by
    rintro _ rfl
    rw [Octets.take?_append ⟨s, rfl⟩ rest]
    rfl
  have hnotZero : UInt8.ofNat s.length ≠ 0 := by
    intro h
    have hzero : s.length = 0 := hcount.symm.trans (congrArg UInt8.toNat h)
    omega
  unfold coinbaseHeight?
  simp only [UInt8.le_iff_toNat_le, UInt8.toNat_ofNat, hcount, if_neg hnotZero]
  rw [if_neg (by omega), if_pos (by omega)]
  exact htake _ hcount

/-- A small number is read from a byte of its own. -/
theorem coinbaseHeight?_small {n : Nat} (hpos : 0 < n) (hle : n ≤ 16) (rest : Bytes) :
    coinbaseHeight? (UInt8.ofNat (0x50 + n) :: rest) = some n := by
  have hop : (UInt8.ofNat (0x50 + n)).toNat = 0x50 + n := by
    rw [UInt8.toNat_ofNat']
    omega
  have hnotZero : UInt8.ofNat (0x50 + n) ≠ 0 := by
    intro h
    have hzero : 0x50 + n = 0 := hop.symm.trans (congrArg UInt8.toNat h)
    omega
  unfold coinbaseHeight?
  simp only [UInt8.le_iff_toNat_le, UInt8.toNat_ofNat, hop, if_neg hnotZero]
  rw [if_pos (by omega), Nat.add_sub_cancel_left]

/-- The height that a sample coinbase commits to is read back where it has a sign bit to spare, and
none is read above that. -/
theorem coinbaseHeight?_heightScript {height : Nat} (h : height < 0x10000000000000000)
    (rest : Bytes) : coinbaseHeight? (heightScript height ++ rest) =
      if height < 0x8000000000000000 then some height else none := by
  by_cases hlarge : 16 < height
  · obtain ⟨hpos, hnine, hfits⟩ := length_signedBytes (Nat.zero_lt_of_lt hlarge) h
    rw [heightScript_of_lt hlarge, List.cons_append]
    by_cases hsigned : height < 0x8000000000000000
    · rw [if_pos hsigned, coinbaseHeight?_count _ _ hpos (hfits.mpr hsigned), leNat_signedBytes]
    · have hcount : (signedBytes height).length = 9 := by omega
      rw [if_neg hsigned, hcount]
      rfl
  · rw [if_pos (by omega)]
    unfold heightScript
    by_cases hzero : height = 0
    · rw [if_pos hzero, hzero]
      rfl
    · rw [if_neg hzero, if_pos (by omega)]
      exact coinbaseHeight?_small (Nat.pos_of_ne_zero hzero) (by omega) rest

end Sample

end LightServer
