import LightServer.Proofs.Json.Fields

/-!
# Types of values

Which values a decoder reads is said by a type of values and by the way in which they are
written. A field of a record has such a type, and what an object has under its name has to
be of the type, also where it is not the value that counts.
-/

namespace LightServer

namespace Json

open Outcome

def IsString (v : Json) : Prop := ∃ s, v = .string s

def IsWord64 (v : Json) : Prop := ∃ n, v = .nat n ∧ n ≤ Text.maxWord64

def IsInt64 (v : Json) : Prop :=
  ∃ i, v = .integer i ∧ -(Text.maxInt64 : Int) - 1 ≤ i ∧ i ≤ Text.maxInt64

/-- The object has a member of the name with the value, and what it has under the name is of the
type. -/
def HasMember (IsTyped : Json → Prop) (ms : List (String × Json)) (name : String) (v : Json) :
    Prop :=
  lookup name ms = some v ∧ ∀ w, (name, w) ∈ ms → IsTyped w

/-- What the object has under the name is the value, or nothing, which stands for a value too. All
that it has there is of the type. -/
def HasMemberOr (missing : Json) (IsTyped : Json → Prop) (ms : List (String × Json)) (name : String)
    (v : Json) : Prop :=
  (lookup name ms).getD missing = v ∧ ∀ w, (name, w) ∈ ms → IsTyped w

/-- The decoder reads the values of a type, which are those that are written. -/
structure Decoder.ReadsType {α : Type} (d : Decoder α) (write : α → Json) (IsTyped : Json → Prop) :
    Prop where
  eq_ok_iff : ∀ v a, d v = .ok a ↔ v = write a ∧ IsTyped v
  typed : ∀ v, IsTyped v → ∃ a, v = write a

section Fields

variable {α : Type} {write : α → Json} {IsTyped : Json → Prop} {ms : List (String × Json)}
  {xs rest : List Json} {name wanted : String} {a : α} {d : Decoder α} {v : Json} {k : Nat}

theorem readsType_string : Decoder.string.ReadsType .string IsString where
  eq_ok_iff v s := by
    rw [Decoder.string_eq_ok_iff]
    exact ⟨fun h => ⟨h, s, h⟩, fun h => h.1⟩
  typed v h := h

theorem readsType_word64 : Decoder.word64.ReadsType .nat IsWord64 where
  eq_ok_iff v n := by
    rw [Decoder.word64_eq_ok_iff]
    constructor
    · exact fun h => ⟨h.1, n, h⟩
    · rintro ⟨rfl, m, hm, hle⟩
      cases hm
      exact ⟨rfl, hle⟩
  typed v := fun ⟨n, hn, _⟩ => ⟨n, hn⟩

theorem readsType_int64 : Decoder.int64.ReadsType .integer IsInt64 where
  eq_ok_iff v i := by
    rw [Decoder.int64_eq_ok_iff]
    constructor
    · exact fun h => ⟨h.1, i, h⟩
    · rintro ⟨rfl, j, hj, hbounds⟩
      cases hj
      exact ⟨rfl, hbounds⟩
  typed v := fun ⟨i, hi, _⟩ => ⟨i, hi⟩

theorem Decoder.ReadsType.exists_iff (h : d.ReadsType write IsTyped) :
    (∃ a, d v = .ok a) ↔ IsTyped v := by
  constructor
  · rintro ⟨a, ha⟩
    exact ((h.eq_ok_iff v a).mp ha).2
  · intro hv
    obtain ⟨a, ha⟩ := h.typed v hv
    exact ⟨a, (h.eq_ok_iff v a).mpr ⟨ha, hv⟩⟩

/-- A field that has to be there is a member of its type. -/
theorem Decoder.ReadsType.ofObject_eq_ok_iff (h : d.ReadsType write IsTyped) :
    (Fields.required name d).ofObject ms = .ok a ↔ HasMember IsTyped ms name (write a) := by
  rw [Fields.ofObject_required_eq_ok_iff]
  constructor
  · rintro ⟨⟨v, hv, ha⟩, hall⟩
    obtain ⟨rfl, -⟩ := (h.eq_ok_iff v a).mp ha
    exact ⟨hv, fun w hw => h.exists_iff.mp (hall w hw)⟩
  · rintro ⟨hv, hall⟩
    refine ⟨⟨_, hv, (h.eq_ok_iff _ a).mpr ⟨rfl, hall _ (mem_of_lookup hv)⟩⟩, fun w hw => ?_⟩
    exact h.exists_iff.mpr (hall w hw)

/-- In an array it is the next item. -/
theorem Decoder.ReadsType.ofItems_eq_ok_iff (h : d.ReadsType write IsTyped) :
    (Fields.required name d).ofItems wanted k xs = .ok (a, rest) ↔
      xs = write a :: rest ∧ IsTyped (write a) := by
  rw [Fields.ofItems_required_eq_ok_iff]
  simp only [h.eq_ok_iff]
  constructor
  · rintro ⟨v, rfl, rfl, hv⟩
    exact ⟨rfl, hv⟩
  · rintro ⟨rfl, hv⟩
    exact ⟨_, rfl, rfl, hv⟩

theorem Decoder.ReadsType.eq_of_write_eq {b : α} (h : d.ReadsType write IsTyped)
    (ha : IsTyped (write a)) (hab : write a = write b) : a = b := by
  have hread := (h.eq_ok_iff (write a) a).mpr ⟨rfl, ha⟩
  rw [(h.eq_ok_iff (write a) b).mpr ⟨hab, ha⟩] at hread
  cases hread
  rfl

/-- Null can be added to a type whose values are written in other ways. -/
theorem Decoder.ReadsType.orNull (h : d.ReadsType write IsTyped) (hnull : ∀ a, write a ≠ .null) :
    d.orNull.ReadsType (.orNull write) fun v => v = .null ∨ IsTyped v where
  eq_ok_iff v o := by
    cases v with
    | null =>
        have hread : d.orNull .null = .ok none := rfl
        rw [hread]
        cases o with
        | none => exact iff_of_true rfl ⟨rfl, .inl rfl⟩
        | some a => exact iff_of_false nofun fun hv => hnull a hv.1.symm
    | _ =>
        rw [Decoder.orNull, map_eq_ok_iff]
        · simp only [h.eq_ok_iff]
          cases o with
          | none => simp [Json.orNull]
          | some a => simp [Json.orNull]
        · exact nofun
  typed v := by
    rintro (rfl | hv)
    · exact ⟨none, rfl⟩
    · obtain ⟨a, rfl⟩ := h.typed v hv
      exact ⟨some a, rfl⟩

/-- A field with a value of its own stands for that value when it is missing. -/
theorem Decoder.ReadsType.ofObject_withDefault_eq_ok_iff {missing : α}
    (h : d.ReadsType write IsTyped) (hmissing : IsTyped (write missing)) :
    (Fields.withDefault name d missing).ofObject ms = .ok a ↔
      HasMemberOr (write missing) IsTyped ms name (write a) := by
  rw [Fields.ofObject_withDefault_eq_ok_iff]
  unfold HasMemberOr
  simp only [h.exists_iff]
  refine and_congr_left fun hall => ?_
  cases hlookup : lookup name ms with
  | none =>
      rw [Option.elim_none, Option.getD_none]
      exact ⟨congrArg write, h.eq_of_write_eq hmissing⟩
  | some v =>
      rw [Option.elim_some, Option.getD_some, h.eq_ok_iff]
      exact and_iff_left (hall v (mem_of_lookup hlookup))

/-- In an array it is the next item, if there is one. -/
theorem Decoder.ReadsType.ofItems_withDefault_eq_ok_iff {missing : α}
    (h : d.ReadsType write IsTyped) :
    (Fields.withDefault name d missing).ofItems wanted k xs = .ok (a, rest) ↔
      (xs = write a :: rest ∧ IsTyped (write a)) ∨ xs = [] ∧ rest = [] ∧ a = missing := by
  cases xs with
  | nil => simp [Fields.withDefault, Fields.field, eq_comm, and_comm]
  | cons v ys =>
      have hread : (Fields.withDefault name d missing).ofItems wanted k (v :: ys) =
          (Fields.required name d).ofItems wanted k (v :: ys) := rfl
      rw [hread, h.ofItems_eq_ok_iff]
      simp

end Fields

end Json

end LightServer
