import LightServer.Wire.Reader

/-!
# What readers accept

`r.Yields s x rest` says that the reader `r` takes the value `x` from the front
of `s` and leaves `rest`. Each reader is described by one equivalence: it yields
a value exactly from the bytes that are written for it, whatever follows. So
nothing else is accepted, and nothing that was written is refused, not even by
the comparison of a count with the bytes that are left. Since a sequence of
readers yields through the rest that lies between them, the equivalences compose
as the bytes do.
-/

namespace LightServer.Wire

def sizeBound : Nat := Nat.pow 256 8

theorem sizeBound_pos : 0 < sizeBound := by decide

theorem one_le_length_compactSize (n : Nat) : 1 ≤ (compactSize n).length := by
  unfold compactSize
  split
  · simp
  · split
    · simp
    · split <;> simp

theorem one_le_length_varBytes (x : Bytes) : 1 ≤ (varBytes x).length := by
  rw [varBytes, List.length_append]
  exact Nat.le_add_right_of_le (one_le_length_compactSize _)

namespace Reader

variable {α β : Type} {s rest : Bytes} {n : Nat} {field : String}

/-- The reader takes `x` from the front of `s` and leaves `rest`. -/
def Yields (r : Reader α) (s : Bytes) (x : α) (rest : Bytes) : Prop :=
  (r s).outcome = .ok x ∧ (r s).rest = rest

theorem bind_of_ok {r : Reader α} {f : α → Reader β} {x : α} (h : (r s).outcome = .ok x) :
    (r >>= f) s = ⟨(f x (r s).rest).outcome, (f x (r s).rest).rest,
      (r s).items + (f x (r s).rest).items⟩ := by
  change andThen r f s = _
  unfold andThen
  generalize r s = first at h ⊢
  obtain ⟨outcome, mid, items⟩ := first
  cases h
  rfl

theorem bind_of_error {r : Reader α} {f : α → Reader β} {e : ParseError}
    (h : (r s).outcome = .error e) : (r >>= f) s = ⟨.error e, (r s).rest, (r s).items⟩ := by
  change andThen r f s = _
  unfold andThen
  generalize r s = first at h ⊢
  obtain ⟨outcome, mid, items⟩ := first
  cases h
  rfl

theorem bind_pure_eq (r : Reader α) : r >>= pure = r := by
  funext s
  cases hr : (r s).outcome with
  | error e => rw [bind_of_error hr, ← hr]
  | ok x =>
      rw [bind_of_ok hr]
      change (⟨.ok x, (r s).rest, (r s).items⟩ : Reading α) = r s
      rw [← hr]

theorem yields_pure {a x : α} : (pure a : Reader α).Yields s x rest ↔ x = a ∧ s = rest := by
  constructor
  · rintro ⟨hx, hrest⟩
    cases hx
    exact ⟨rfl, hrest⟩
  · rintro ⟨rfl, rfl⟩
    exact ⟨rfl, rfl⟩

theorem not_yields_refuse {e : ParseError} {x : α} :
    ¬ (refuse e : Reader α).Yields s x rest := by
  rintro ⟨hx, -⟩
  cases hx

theorem yields_bind {r : Reader α} {f : α → Reader β} {y : β} :
    (r >>= f).Yields s y rest ↔ ∃ x mid, r.Yields s x mid ∧ (f x).Yields mid y rest := by
  unfold Yields
  cases hr : (r s).outcome with
  | error e => simp [bind_of_error hr]
  | ok x =>
      rw [bind_of_ok hr]
      constructor
      · intro h
        exact ⟨x, (r s).rest, ⟨rfl, rfl⟩, h⟩
      · rintro ⟨x', mid, ⟨hx, rfl⟩, h⟩
        cases hx
        exact h

/-- The reader refuses `s` with the fault `e`. -/
def Refuses (r : Reader α) (s : Bytes) (e : ParseError) : Prop := (r s).outcome = .error e

theorem refuses_refuse {e : ParseError} : (refuse e : Reader α).Refuses s e := rfl

theorem Refuses.unique {r : Reader α} {e e' : ParseError} (h : r.Refuses s e)
    (h' : r.Refuses s e') : e = e' :=
  Except.error.inj (h.symm.trans h')

theorem Yields.not_refuses {r : Reader α} {x : α} {e : ParseError} (h : r.Yields s x rest) :
    ¬ r.Refuses s e := by
  intro hrefuses
  rw [Refuses, h.1] at hrefuses
  cases hrefuses

/-- What comes first decides. -/
theorem Refuses.bind {r : Reader α} {e : ParseError} (h : r.Refuses s e) (f : α → Reader β) :
    (r >>= f).Refuses s e := by
  rw [Refuses, bind_of_error h]

/-- After a value the rest decides. -/
theorem Yields.bind_refuses {r : Reader α} {f : α → Reader β} {x : α} {e : ParseError}
    (h : r.Yields s x rest) (hf : (f x).Refuses rest e) : (r >>= f).Refuses s e := by
  obtain ⟨hx, rfl⟩ := h
  rw [Refuses, bind_of_ok hx]
  exact hf

theorem yields_take {x : Octets n} : (take n field).Yields s x rest ↔ s = x.bytes ++ rest := by
  constructor
  · rintro ⟨hx, hrest⟩
    unfold take at hx hrest
    split at hx
    next y mid htake =>
      rw [htake] at hrest
      cases hx
      cases hrest
      exact Octets.eq_append_of_take? htake
    next => cases hx
  · rintro rfl
    unfold Yields take
    rw [Octets.take?_append]
    exact ⟨rfl, rfl⟩

theorem refuses_take (hs : s.length < n) :
    (take n field).Refuses s (.unexpectedEnd field n s.length) := by
  unfold Refuses take
  rw [Octets.take?_eq_none_iff.mpr hs]

theorem refuses_number (hs : s.length < n) :
    (number n field).Refuses s (.unexpectedEnd field n s.length) :=
  (refuses_take hs).bind _

theorem yields_number {v : Nat} :
    (number n field).Yields s v rest ↔ v < Nat.pow 256 n ∧ s = Bytes.leBytes n v ++ rest := by
  unfold number
  simp only [yields_bind, yields_pure, yields_take]
  constructor
  · rintro ⟨x, mid, hs, rfl, rfl⟩
    have hx := congrArg Octets.bytes x.ofNat_toNat
    exact ⟨x.toNat_lt, by rw [hs, ← hx]; rfl⟩
  · rintro ⟨hv, hs⟩
    exact ⟨Octets.ofNat n v, rest, hs, (Octets.toNat_ofNat hv).symm, rfl⟩

theorem yields_atLeast {low value v : Nat} :
    (atLeast low value).Yields s v rest ↔ low ≤ value ∧ v = value ∧ s = rest := by
  unfold atLeast
  split
  next hlow => simp [not_yields_refuse, Nat.not_le.mpr hlow]
  next hlow => simp [yields_pure, Nat.le_of_not_lt hlow]

/-- A number of `n` bytes after a byte that announces it. -/
theorem yields_number_atLeast {low v : Nat} :
    (number n field >>= fun value => atLeast low value).Yields s v rest ↔
      low ≤ v ∧ v < Nat.pow 256 n ∧ s = Bytes.leBytes n v ++ rest := by
  simp only [yields_bind, yields_number, yields_atLeast]
  constructor
  · rintro ⟨value, mid, ⟨hv, hs⟩, hlow, rfl, rfl⟩
    exact ⟨hlow, hv, hs⟩
  · rintro ⟨hlow, hv, hs⟩
    exact ⟨v, rest, ⟨hv, hs⟩, hlow, rfl, rfl⟩

theorem yields_compactSize :
    (compactSize field).Yields s n rest ↔ n < sizeBound ∧ s = Wire.compactSize n ++ rest := by
  have h1 : Nat.pow 256 1 = 0x100 := rfl
  have h2 : Nat.pow 256 2 = 0x10000 := rfl
  have h4 : Nat.pow 256 4 = 0x100000000 := rfl
  have h8 : Nat.pow 256 8 = 0x10000000000000000 := rfl
  unfold compactSize Wire.compactSize sizeBound
  rw [yields_bind]
  -- the first byte picks the size of the number on one side, the number itself on the other
  constructor
  · rintro ⟨first, mid, hfirst, hn⟩
    obtain ⟨hlt, rfl⟩ := yields_number.mp hfirst
    split at hn
    · obtain ⟨hlow, hv, rfl⟩ := yields_number_atLeast.mp hn
      rw [if_neg (by omega), if_pos (by omega)]
      exact ⟨by omega, rfl⟩
    · obtain ⟨hlow, hv, rfl⟩ := yields_number_atLeast.mp hn
      rw [if_neg (by omega), if_neg (by omega), if_pos (by omega)]
      exact ⟨by omega, rfl⟩
    · obtain ⟨hlow, hv, rfl⟩ := yields_number_atLeast.mp hn
      rw [if_neg (by omega), if_neg (by omega), if_neg (by omega)]
      exact ⟨by omega, rfl⟩
    next hFD hFE hFF =>
      obtain ⟨rfl, rfl⟩ := yields_pure.mp hn
      have hother : n ≠ 0xFD ∧ n ≠ 0xFE ∧ n ≠ 0xFF := ⟨hFD, hFE, hFF⟩
      rw [if_pos (by omega)]
      exact ⟨by omega, rfl⟩
  · rintro ⟨hn, rfl⟩
    by_cases hone : n < 0xFD
    · rw [if_pos hone]
      refine ⟨n, rest, yields_number.mpr ⟨by omega, rfl⟩, ?_⟩
      split
      · omega
      · omega
      · omega
      · exact yields_pure.mpr ⟨rfl, rfl⟩
    rw [if_neg hone]
    by_cases htwo : n < 0x10000
    · rw [if_pos htwo]
      exact ⟨0xFD, _, yields_number.mpr ⟨by omega, rfl⟩,
        yields_number_atLeast.mpr ⟨by omega, by omega, rfl⟩⟩
    rw [if_neg htwo]
    by_cases hfour : n < 0x100000000
    · rw [if_pos hfour]
      exact ⟨0xFE, _, yields_number.mpr ⟨by omega, rfl⟩,
        yields_number_atLeast.mpr ⟨by omega, by omega, rfl⟩⟩
    rw [if_neg hfour]
    exact ⟨0xFF, _, yields_number.mpr ⟨by omega, rfl⟩,
      yields_number_atLeast.mpr ⟨by omega, by omega, rfl⟩⟩

/-- A count is yielded where the bytes after it can hold so many items. -/
theorem yields_count {size : Nat} :
    (count field size).Yields s n rest ↔
      n < sizeBound ∧ n * max size 1 ≤ rest.length ∧ s = Wire.compactSize n ++ rest := by
  unfold count
  refine yields_bind.trans ?_
  simp only [yields_compactSize]
  constructor
  · rintro ⟨m, mid, ⟨hm, hs⟩, hn, hrest⟩
    simp only at hn hrest
    split at hn
    next hreaches =>
      rw [if_pos hreaches] at hrest
      cases hn
      cases hrest
      exact ⟨hm, Bytes.reaches_iff.mp hreaches, hs⟩
    next => cases hn
  · rintro ⟨hn, hfits, hs⟩
    refine ⟨n, rest, ⟨hn, hs⟩, ?_⟩
    simp only [Yields]
    rw [if_pos (Bytes.reaches_iff.mpr hfits)]
    exact ⟨rfl, rfl⟩

theorem yields_varBytes {x : Bytes} :
    (varBytes field).Yields s x rest ↔ x.length < sizeBound ∧ s = Wire.varBytes x ++ rest := by
  unfold varBytes Wire.varBytes
  simp only [yields_bind, yields_pure, yields_count, yields_take, List.append_assoc]
  constructor
  · rintro ⟨n, mid, ⟨hn, -, rfl⟩, y, _, rfl, rfl, rfl⟩
    rw [y.length_eq]
    exact ⟨hn, rfl⟩
  · rintro ⟨hx, rfl⟩
    exact ⟨x.length, x ++ rest, ⟨hx, by simp, rfl⟩, ⟨x, rfl⟩, rest, rfl, rfl, rfl⟩

theorem yields_item {r : Reader α} {x : α} : (item r).Yields s x rest ↔ r.Yields s x rest := by
  unfold item
  rw [yields_bind]
  constructor
  · rintro ⟨_, _, ⟨_, rfl⟩, h⟩
    exact h
  · intro h
    exact ⟨(), s, ⟨rfl, rfl⟩, h⟩

/-- The reader yields the values with the property `P`, each from the bytes that `w` writes
for it and from no others. -/
def Accepts (r : Reader α) (P : α → Prop) (w : α → Bytes) : Prop :=
  ∀ s x rest, r.Yields s x rest ↔ P x ∧ s = w x ++ rest

theorem accepts_take (n : Nat) (field : String) :
    (take n field).Accepts (fun _ => True) Octets.bytes := by
  intro s x rest
  rw [yields_take, true_and]

variable {r : Reader α} {P : α → Prop} {w : α → Bytes} {xs : List α}

theorem Accepts.yields_times (hr : r.Accepts P w) :
    (times r n).Yields s xs rest ↔
      xs.length = n ∧ (∀ x ∈ xs, P x) ∧ s = xs.flatMap w ++ rest := by
  induction n generalizing s xs rest with
  | zero =>
      simp only [times, yields_pure, List.length_eq_zero_iff]
      constructor
      · rintro ⟨rfl, rfl⟩
        simp
      · rintro ⟨rfl, -, rfl⟩
        simp
  | succ n ih =>
      simp only [times, yields_bind, yields_pure, yields_item, hr _ _ _, ih]
      constructor
      · rintro ⟨x, mid, ⟨hx, rfl⟩, ys, _, ⟨rfl, hys, rfl⟩, rfl, rfl⟩
        simp only [List.length_cons, List.forall_mem_cons, List.flatMap_cons, List.append_assoc]
        exact ⟨trivial, ⟨hx, hys⟩, trivial⟩
      · rintro ⟨hlength, hxs, rfl⟩
        obtain ⟨x, ys, rfl⟩ := List.exists_cons_of_length_eq_add_one hlength
        rw [List.forall_mem_cons] at hxs
        rw [List.flatMap_cons, List.append_assoc]
        exact ⟨x, ys.flatMap w ++ rest, ⟨hxs.1, rfl⟩, ys, rest,
          ⟨Nat.succ.inj hlength, hxs.2, rfl⟩, rfl, rfl⟩

theorem mul_length_le_length_flatMap {size : Nat} (hsize : ∀ x ∈ xs, size ≤ (w x).length) :
    xs.length * size ≤ (xs.flatMap w).length := by
  induction xs with
  | nil => simp
  | cons x xs ih =>
      have hhead := hsize x List.mem_cons_self
      have htail := ih fun y hy => hsize y (List.mem_cons_of_mem x hy)
      rw [List.length_cons, List.flatMap_cons, List.length_append, Nat.succ_mul]
      omega

/-- A list is yielded however many bytes follow, because its items have the bytes that its count
asks for. -/
theorem Accepts.yields_list {size : Nat} (hr : r.Accepts P w) (hpos : 0 < size)
    (hsize : ∀ x, P x → size ≤ (w x).length) :
    (list field size r).Yields s xs rest ↔
      xs.length < sizeBound ∧ (∀ x ∈ xs, P x) ∧ s = listBytes w xs ++ rest := by
  unfold list listBytes
  simp only [yields_bind, yields_count, hr.yields_times, List.append_assoc]
  constructor
  · rintro ⟨n, mid, ⟨hn, -, rfl⟩, rfl, hxs, rfl⟩
    exact ⟨hn, hxs, rfl⟩
  · rintro ⟨hlength, hxs, rfl⟩
    have hfits := mul_length_le_length_flatMap fun x hx => hsize x (hxs x hx)
    refine ⟨xs.length, xs.flatMap w ++ rest, ⟨hlength, ?_, rfl⟩, rfl, hxs, rfl⟩
    rw [Nat.max_eq_left hpos, List.length_append]
    omega

end Reader

end LightServer.Wire
