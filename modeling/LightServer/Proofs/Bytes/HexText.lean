import LightServer.Bytes.Hex

/-!
# Which texts are hexadecimal

A text is read as bytes exactly if it is made of pairs of hexadecimal digits of either
case, and what is written for these bytes is the text in lower case. A text is the
displayed form of a hash exactly if it has as many of them as the hash has bytes, and
the hash is displayed as the text in lower case again.
-/

namespace LightServer

namespace Hex

def IsDigit (c : Char) : Prop :=
  ('0' ≤ c ∧ c ≤ '9') ∨ ('a' ≤ c ∧ c ≤ 'f') ∨ ('A' ≤ c ∧ c ≤ 'F')

instance (c : Char) : Decidable (IsDigit c) := inferInstanceAs (Decidable (_ ∨ _ ∨ _))

def AllDigits (s : String) : Prop := ∀ c ∈ s.toList, IsDigit c

instance (s : String) : Decidable (AllDigits s) := List.decidableBAll IsDigit s.toList

variable {a : UInt8} {c : Char} {cs : List Char} {b : Bytes} {s : String} {i x : Nat}

theorem lt_of_value? (h : value? a = some x) : x < 16 := by
  unfold value? at h
  split at h
  · cases h
    omega
  split at h
  · cases h
    omega
  split at h
  · cases h
    omega
  · cases h

/-- Only bytes of ASCII characters have a value. -/
theorem value?_of_le (h : 128 ≤ a.toNat) : value? a = none := by
  unfold value?
  rw [if_neg (by omega), if_neg (by omega), if_neg (by omega)]

/-- The value of an ASCII character is the one of the digit that is the character in lower case. -/
theorem map_digit_value? {n : Nat} (h : n < 128) : (value? (UInt8.ofNat n)).map digit =
    if IsDigit (Char.ofNat n) then some (Char.ofNat n).toLower else none := by
  have hall : ∀ k : Fin 128, (value? (UInt8.ofNat k)).map digit =
      if IsDigit (Char.ofNat k) then some (Char.ofNat k).toLower else none := by decide +kernel
  exact hall ⟨n, h⟩

theorem utf8EncodeChar_of_lt (h : c.toNat < 128) :
    String.utf8EncodeChar c = [UInt8.ofNat c.toNat] := by
  have hle : c.val.toNat ≤ 127 := Nat.le_of_lt_succ h
  unfold String.utf8EncodeChar
  exact if_pos hle

theorem lt_of_isDigit (h : IsDigit c) : c.toNat < 128 := by
  have hle : c ≤ 'f' := by
    rcases h with ⟨-, h⟩ | ⟨-, h⟩ | ⟨-, h⟩
    · exact Char.le_trans h (by decide)
    · exact h
    · exact Char.le_trans h (by decide)
  have hnat : c.toNat ≤ 102 := UInt32.le_iff_toNat_le.mp hle
  omega

/-- A digit is one byte, whose value is that of the digit in lower case. -/
theorem exists_utf8EncodeChar_of_isDigit (h : IsDigit c) :
    ∃ a x, String.utf8EncodeChar c = [a] ∧ value? a = some x ∧ digit x = c.toLower := by
  have hlt := lt_of_isDigit h
  have hvalue := map_digit_value? hlt
  rw [Char.ofNat_toNat, if_pos h] at hvalue
  obtain ⟨x, hx, hdigit⟩ := Option.map_eq_some_iff.mp hvalue
  exact ⟨_, x, utf8EncodeChar_of_lt hlt, hx, hdigit⟩

/-- The bytes of a character that is no digit have no value. -/
theorem exists_value?_eq_none_of_not_isDigit (h : ¬ IsDigit c) :
    ∃ a ∈ String.utf8EncodeChar c, value? a = none := by
  by_cases hlt : c.toNat < 128
  · have hvalue := map_digit_value? hlt
    rw [Char.ofNat_toNat, if_neg h, Option.map_eq_none_iff] at hvalue
    rw [utf8EncodeChar_of_lt hlt]
    exact ⟨_, List.mem_singleton.mpr rfl, hvalue⟩
  · have hfirst : ∃ a rest, String.utf8EncodeChar c = a :: rest ∧ 128 ≤ a.toNat := by
      have hval : c.val.toNat = c.toNat := rfl
      have hlarge : ¬ c.val.toNat ≤ 127 := by omega
      unfold String.utf8EncodeChar
      simp only [if_neg hlarge]
      split
      · exact ⟨_, _, rfl, by rw [UInt8.toNat_ofNat']; omega⟩
      split
      · exact ⟨_, _, rfl, by rw [UInt8.toNat_ofNat']; omega⟩
      · exact ⟨_, _, rfl, by rw [UInt8.toNat_ofNat']; omega⟩
    obtain ⟨a, rest, hchar, ha⟩ := hfirst
    rw [hchar]
    exact ⟨a, List.mem_cons_self, value?_of_le ha⟩

/-- All bytes that were read have a value. -/
theorem value?_ne_none_of_decodePairs {t : Bytes} (h : decodePairs i t = .ok b)
    (heven : t.length % 2 = 0) : ∀ a ∈ t, value? a ≠ none := by
  induction i, t using decodePairs.induct generalizing b with
  | case1 i x y t hx =>
      rw [decodePairs, hx] at h
      cases h
  | case2 i x y t _ hy hx =>
      rw [decodePairs, hx, hy] at h
      cases h
  | case3 i x y t u v hy hx ih =>
      rw [decodePairs, hx, hy] at h
      cases hrest : decodePairs (i + 2) t with
      | error e =>
          simp only [hrest] at h
          cases h
      | ok b' =>
          have ht := ih hrest (by simp only [List.length_cons] at heven; omega)
          simp only [List.forall_mem_cons, hx, hy]
          exact ⟨Option.some_ne_none _, Option.some_ne_none _, ht⟩
  | case4 t i hpair =>
      rcases t with _ | ⟨x, _ | ⟨y, t⟩⟩
      · exact List.forall_mem_nil _
      · cases heven
      · exact absurd rfl (hpair x y t)

theorem ofByte_pair {x y : Nat} (hx : x < 16) (hy : y < 16) :
    ofByte (UInt8.ofNat (16 * x + y)) = [digit x, digit y] := by
  have hnat : (UInt8.ofNat (16 * x + y)).toNat = 16 * x + y := by
    rw [UInt8.toNat_ofNat']
    omega
  have hlow : (16 * x + y) % 16 = y % 16 := Nat.mul_add_mod 16 x y
  have hhigh : (16 * x + y) / 16 = x := by omega
  simp only [ofByte, hnat, hhigh, digit, hlow]

/-- Pairs of digits are read, and written again in lower case. -/
theorem exists_decodePairs_of_digits : ∀ (cs : List Char) (i : Nat), (∀ c ∈ cs, IsDigit c) →
    cs.length % 2 = 0 → ∃ b, decodePairs i (utf8Chars cs) = .ok b ∧ digits b = cs.map Char.toLower
  | [], i, _, _ => ⟨[], rfl, rfl⟩
  | [_], _, _, heven => by cases heven
  | c :: d :: cs, i, hdigits, heven => by
      obtain ⟨hc, hrest⟩ := List.forall_mem_cons.mp hdigits
      obtain ⟨hd, hcs⟩ := List.forall_mem_cons.mp hrest
      obtain ⟨x, u, hcx, hu, hcu⟩ := exists_utf8EncodeChar_of_isDigit hc
      obtain ⟨y, v, hdy, hv, hdv⟩ := exists_utf8EncodeChar_of_isDigit hd
      obtain ⟨b, hb, hlower⟩ := exists_decodePairs_of_digits cs (i + 2) hcs
        (by simp only [List.length_cons] at heven; omega)
      have hbytes : utf8Chars (c :: d :: cs) = x :: y :: utf8Chars cs := by
        rw [utf8Chars, List.flatMap_cons, List.flatMap_cons, hcx, hdy]
        rfl
      refine ⟨UInt8.ofNat (16 * u + v) :: b, ?_, ?_⟩
      · rw [hbytes, decodePairs, hu, hv]
        simp only [hb]
        rfl
      · have hpair := ofByte_pair (lt_of_value? hu) (lt_of_value? hv)
        rw [digits] at hlower ⊢
        rw [List.flatMap_cons, hpair, hlower, hcu, hdv]
        rfl

theorem length_utf8Chars_of_digits (h : ∀ c ∈ cs, IsDigit c) :
    (utf8Chars cs).length = cs.length := by
  induction cs with
  | nil => rfl
  | cons c cs ih =>
      obtain ⟨hc, hcs⟩ := List.forall_mem_cons.mp h
      obtain ⟨x, -, hx, -⟩ := exists_utf8EncodeChar_of_isDigit hc
      have hcons : utf8Chars (c :: cs) = x :: utf8Chars cs := by
        rw [utf8Chars, List.flatMap_cons, hx]
        rfl
      rw [hcons, List.length_cons, List.length_cons, ih hcs]

theorem encode_injective {b' : Bytes} (h : encode b = encode b') : b = b' := by
  have hdecode := decode_encode b
  rw [h, decode_encode] at hdecode
  cases hdecode
  rfl

theorem exists_decode_eq_ok (hdigits : AllDigits s) (heven : s.length % 2 = 0) :
    ∃ b, decode s = .ok b ∧ encode b = s.toLower := by
  rw [← String.length_toList] at heven
  obtain ⟨b, hb, hlower⟩ := exists_decodePairs_of_digits s.toList 0 hdigits heven
  refine ⟨b, ?_, ?_⟩
  · unfold decode decodeBytes
    rw [utf8, length_utf8Chars_of_digits hdigits, if_neg (by omega)]
    exact hb
  · rw [encode, hlower, ← String.toList_map, String.ofList_toList]
    rfl

/-- A text is hexadecimal exactly if it is made of pairs of digits, and the bytes that are read
from it are written as the text in lower case. -/
theorem decode_eq_ok_iff :
    decode s = .ok b ↔ AllDigits s ∧ s.length % 2 = 0 ∧ encode b = s.toLower := by
  constructor
  · intro h
    have hpairs := h
    unfold decode decodeBytes at hpairs
    split at hpairs
    next => cases hpairs
    next hlength =>
      have hvalues := value?_ne_none_of_decodePairs hpairs (by omega)
      have hdigits : AllDigits s := by
        intro c hc
        refine Decidable.byContradiction fun hnot => ?_
        obtain ⟨a, ha, hnone⟩ := exists_value?_eq_none_of_not_isDigit hnot
        exact hvalues a (List.mem_flatMap.mpr ⟨c, hc, ha⟩) hnone
      have heven : s.length % 2 = 0 := by
        rw [utf8, length_utf8Chars_of_digits hdigits, String.length_toList] at hlength
        omega
      obtain ⟨b', hb', hlower⟩ := exists_decode_eq_ok hdigits heven
      rw [h] at hb'
      cases hb'
      exact ⟨hdigits, heven, hlower⟩
  · rintro ⟨hdigits, heven, hlower⟩
    obtain ⟨b', hb', hlower'⟩ := exists_decode_eq_ok hdigits heven
    rw [encode_injective (hlower.trans hlower'.symm), hb']

theorem length_digits (b : Bytes) : (digits b).length = 2 * b.length := by
  induction b with
  | nil => rfl
  | cons a b ih =>
      rw [digits] at ih ⊢
      rw [List.flatMap_cons, List.length_append, ih, ofByte, List.length_cons]
      simp only [List.length_cons, List.length_nil]
      omega

/-- A text has two digits for each byte that is read from it. -/
theorem length_eq_of_encode (h : encode b = s.toLower) : s.length = 2 * b.length := by
  have hlower : s.toLower.length = s.length := by
    rw [← String.length_toList (s := s), ← List.length_map Char.toLower, ← String.toList_map,
      String.length_toList]
    rfl
  rw [← hlower, ← h, encode, String.length_ofList, length_digits]

end Hex

namespace Octets

variable {n : Nat} {s : String} {x y : Octets n}

theorem display_reverse (x : Octets n) : x.reverse.display = Hex.encode x.bytes := by
  rw [display, reverse_reverse, hex]

theorem display_injective (h : x.display = y.display) : x = y := by
  have hbytes : x.reverse = y.reverse := Octets.ext (Hex.encode_injective h)
  rw [← reverse_reverse x, hbytes, reverse_reverse]

theorem exists_display_eq (hdigits : Hex.AllDigits s) (hlength : s.length = 2 * n) :
    ∃ x : Octets n, x.display = s.toLower ∧ Hex.decode s = .ok x.reverse.bytes := by
  obtain ⟨b, hb, hlower⟩ := Hex.exists_decode_eq_ok hdigits (by omega)
  have hn : b.length = n := by
    have htwice := Hex.length_eq_of_encode hlower
    omega
  refine ⟨reverse ⟨b, hn⟩, (display_reverse _).trans hlower, ?_⟩
  rw [reverse_reverse, hb]

/-- A text is the displayed form of `n` bytes exactly if it has two digits for each of them, and
they are displayed as the text in lower case. -/
theorem ofDisplay_eq_ok_iff : ofDisplay n s = .ok x ↔
    Hex.AllDigits s ∧ s.length = 2 * n ∧ x.display = s.toLower := by
  constructor
  · intro h
    unfold ofDisplay at h
    split at h
    next => cases h
    next b hb =>
      split at h
      next y hy =>
        cases h
        obtain ⟨hdigits, -, hlower⟩ := Hex.decode_eq_ok_iff.mp hb
        have hlength := Hex.length_eq_of_encode hlower
        obtain rfl := ofBytes?_eq_some_iff.mp hy
        rw [y.length_eq] at hlength
        exact ⟨hdigits, hlength, (display_reverse y).trans hlower⟩
      next => cases h
  · rintro ⟨hdigits, hlength, hlower⟩
    obtain ⟨y, hy, hdecode⟩ := exists_display_eq hdigits hlength
    obtain rfl := display_injective (hlower.trans hy.symm)
    unfold ofDisplay
    simp only [hdecode, ofBytes?_bytes, reverse_reverse]

end Octets

end LightServer
