import LightServer.Json.Text

/-!
# Strings as they are written

A string that was written is cut off at its own closing quote, whatever characters it
has and whatever comes after it, and resolving its escapes gives the string back. What
is written has no control characters.
-/

namespace LightServer.Json

variable {c d : Char} {n : Nat}

theorem hexValue?_digitChar (h : n < 16) : hexValue? (Nat.digitChar n) = some n := by
  have hall : ∀ n < 16, hexValue? (Nat.digitChar n) = some n := by decide
  exact hall n h

theorem digitChar_bounds (h : n < 16) : 0x30 ≤ (Nat.digitChar n).toNat ∧
    Nat.digitChar n ≠ '"' ∧ Nat.digitChar n ≠ '\\' := by
  have hall : ∀ n < 16, 0x30 ≤ (Nat.digitChar n).toNat ∧
      Nat.digitChar n ≠ '"' ∧ Nat.digitChar n ≠ '\\' := by decide
  exact hall n h

def StandsAlone (c : Char) : Prop := c ≠ '"' ∧ c ≠ '\\' ∧ 0x20 ≤ c.toNat

theorem standsAlone_digitChar (h : n < 16) : StandsAlone (Nat.digitChar n) := by
  obtain ⟨hle, hquote, hslash⟩ := digitChar_bounds h
  exact ⟨hquote, hslash, by omega⟩

theorem cutString_alone (h : StandsAlone c) (s : List Char) :
    cutString (c :: s) = (cutString s).map fun (t, r) => (c :: t, r) := by
  obtain ⟨hquote, hslash, hle⟩ := h
  rw [cutString]
  · rw [if_neg (Nat.not_lt.mpr hle)]
  · exact hquote
  · exact fun _ _ h => absurd h hslash

theorem cutString_escaped (c : Char) (s : List Char) :
    cutString ('\\' :: c :: s) = (cutString s).map fun (t, r) => ('\\' :: c :: t, r) := by
  rw [cutString]

theorem unescape_alone (h : StandsAlone c) (s : List Char) :
    unescape (c :: s) = (unescape s).map (c :: ·) := by
  rw [unescape]
  · exact fun _ _ _ _ _ h' => absurd h' h.2.1
  · exact fun _ _ h' => absurd h' h.2.1
  · exact fun h' => absurd h' h.2.1

theorem unescape_short (h : shortEscape? d = some c) (hd : d ≠ 'u') (s : List Char) :
    unescape ('\\' :: d :: s) = (unescape s).map (c :: ·) := by
  rw [unescape]
  · rw [h]
  · exact fun _ _ _ _ _ h' => absurd h' hd

/-- The forms in which characters are written. -/
theorem escape_cases (c : Char) :
    (∃ d, escape c = ['\\', d] ∧ d ≠ 'u' ∧ 0x20 ≤ d.toNat ∧ shortEscape? d = some c) ∨
      (c.toNat < 0x20 ∧ escape c =
        ['\\', 'u', '0', '0', Nat.digitChar (c.toNat / 16), Nat.digitChar (c.toNat % 16)]) ∨
      escape c = [c] ∧ StandsAlone c := by
  have hchar {k : Nat} (h : c.toNat = k) : Char.ofNat k = c := h ▸ Char.ofNat_toNat c
  unfold escape
  split
  next h => exact .inl ⟨'"', rfl, by decide, by decide, by rw [h]; rfl⟩
  next hquote =>
    split
    next h => exact .inl ⟨'\\', rfl, by decide, by decide, by rw [h]; rfl⟩
    next hslash =>
      split
      next h => exact .inl ⟨'n', rfl, by decide, by decide, by rw [h]; rfl⟩
      split
      next h => exact .inl ⟨'r', rfl, by decide, by decide, by rw [h]; rfl⟩
      split
      next h => exact .inl ⟨'t', rfl, by decide, by decide, by rw [h]; rfl⟩
      split
      next h => exact .inl ⟨'b', rfl, by decide, by decide, congrArg some (hchar h)⟩
      split
      next h => exact .inl ⟨'f', rfl, by decide, by decide, congrArg some (hchar h)⟩
      split
      next h => exact .inr (.inl ⟨h, rfl⟩)
      next h => exact .inr (.inr ⟨rfl, hquote, hslash, Nat.not_lt.mp h⟩)

theorem unit?_escape (h : c.toNat < 0x20) :
    unit? '0' '0' (Nat.digitChar (c.toNat / 16)) (Nat.digitChar (c.toNat % 16)) =
      some c.toNat := by
  have hzero : hexValue? '0' = some 0 := rfl
  simp only [unit?, hzero, hexValue?_digitChar (show c.toNat / 16 < 16 by omega),
    hexValue?_digitChar (show c.toNat % 16 < 16 by omega), Option.pure_def,
    Option.bind_eq_bind, Option.bind_some]
  congr 1
  omega

theorem cutString_escape (c : Char) (s : List Char) :
    cutString (escape c ++ s) = (cutString s).map fun (t, r) => (escape c ++ t, r) := by
  obtain ⟨d, hescape, -⟩ | ⟨hc, hescape⟩ | ⟨hescape, hc⟩ := escape_cases c
  · rw [hescape]
    exact cutString_escaped d s
  · have hzero : StandsAlone '0' := by
      unfold StandsAlone
      decide
    simp only [hescape, List.cons_append, List.nil_append, cutString_escaped,
      cutString_alone hzero,
      cutString_alone (standsAlone_digitChar (show c.toNat / 16 < 16 by omega)),
      cutString_alone (standsAlone_digitChar (show c.toNat % 16 < 16 by omega)), Option.map_map]
    rfl
  · rw [hescape]
    exact cutString_alone hc s

theorem unescape_escape (c : Char) (s : List Char) :
    unescape (escape c ++ s) = (unescape s).map (c :: ·) := by
  obtain ⟨d, hescape, hd, -, hshort⟩ | ⟨hc, hescape⟩ | ⟨hescape, hc⟩ := escape_cases c
  · rw [hescape]
    exact unescape_short hshort hd s
  · have hlow : isLowHalf c.toNat = false := by
      simp [isLowHalf]
      omega
    have hhigh : isHighHalf c.toNat = false := by
      simp [isHighHalf]
      omega
    simp only [hescape, List.cons_append, List.nil_append, unescape, unit?_escape hc, hlow, hhigh,
      Bool.false_eq_true, if_false, Char.ofNat_toNat]
  · rw [hescape]
    exact unescape_alone hc s

theorem cutString_flatMap_escape (s r : List Char) :
    cutString (s.flatMap escape ++ '"' :: r) = some (s.flatMap escape, r) := by
  induction s with
  | nil => rw [List.flatMap_nil, List.nil_append, cutString]
  | cons c s ih =>
      rw [List.flatMap_cons, List.append_assoc, cutString_escape, ih]
      rfl

theorem unescape_flatMap_escape (s : List Char) : unescape (s.flatMap escape) = some s := by
  induction s with
  | nil => rw [List.flatMap_nil, unescape]
  | cons c s ih =>
      rw [List.flatMap_cons, unescape_escape, ih]
      rfl

/-- A string that was written is read back, whatever comes after it. -/
theorem readString_flatMap_escape (s : String) (r : List Char) :
    readString (s.toList.flatMap escape ++ '"' :: r) = some (s, r) := by
  simp only [readString, cutString_flatMap_escape, unescape_flatMap_escape, Option.pure_def,
    Option.bind_eq_bind, Option.bind_some, String.ofList_toList]

theorem le_toNat_of_mem_escape (hd : d ∈ escape c) : 0x20 ≤ d.toNat := by
  obtain ⟨e, hescape, -, he, -⟩ | ⟨hc, hescape⟩ | ⟨hescape, hc⟩ := escape_cases c
  · rw [hescape] at hd
    simp only [List.mem_cons, List.not_mem_nil, or_false] at hd
    obtain rfl | rfl := hd
    · decide
    · exact he
  · have hhigh := (digitChar_bounds (show c.toNat / 16 < 16 by omega)).1
    have hlow := (digitChar_bounds (show c.toNat % 16 < 16 by omega)).1
    rw [hescape] at hd
    simp only [List.mem_cons, List.not_mem_nil, or_false] at hd
    obtain rfl | rfl | rfl | rfl | rfl | rfl := hd <;> first | decide | omega
  · rw [hescape] at hd
    rw [List.mem_singleton.mp hd]
    exact hc.2.2

/-- A string is written without control characters. -/
theorem le_toNat_of_mem_writeString {s : String} (hd : d ∈ writeString s) : 0x20 ≤ d.toNat := by
  unfold writeString at hd
  simp only [List.cons_append, List.mem_cons, List.mem_append, List.mem_flatMap, List.not_mem_nil,
    or_false] at hd
  obtain rfl | ⟨c, -, hd⟩ | rfl := hd
  · decide
  · exact le_toNat_of_mem_escape hd
  · decide

end LightServer.Json
