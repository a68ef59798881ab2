import LightServer.Json.Decode
import LightServer.Proofs.Outcome
import Mathlib.Data.List.Forall2

/-!
# What records are read from

A record is read from an object in which each field has its member, or from an array
that has the fields in their order and nothing else. An object gives a field by the
member of its name, and a member of this name that cannot be read spoils the record.
-/

namespace LightServer

/-- If each element has a partner, the list has one. -/
theorem exists_forall₂ {α β : Type} {R : α → β → Prop} {xs : List α}
    (h : ∀ x ∈ xs, ∃ y, R x y) : ∃ ys, List.Forall₂ R xs ys := by
  induction xs with
  | nil => exact ⟨[], .nil⟩
  | cons x xs ih =>
      obtain ⟨hx, hxs⟩ := List.forall_mem_cons.mp h
      obtain ⟨y, hy⟩ := hx
      obtain ⟨ys, hys⟩ := ih hxs
      exact ⟨y :: ys, .cons hy hys⟩

theorem Outcome.mapM_eq_ok_iff {ε α β : Type} {f : α → Except ε β} {xs : List α} {ys : List β} :
    xs.mapM f = .ok ys ↔ List.Forall₂ (fun x y => f x = .ok y) xs ys := by
  induction xs generalizing ys with
  | nil =>
      rw [List.forall₂_nil_left_iff]
      exact ⟨fun h => by cases h; rfl, fun h => by rw [h]; rfl⟩
  | cons x xs ih =>
      rw [List.mapM_cons, List.forall₂_cons_left_iff]
      constructor
      · intro h
        obtain ⟨y, hy, h⟩ := bind_eq_ok_iff.mp h
        obtain ⟨ys', hys, h⟩ := bind_eq_ok_iff.mp h
        cases h
        exact ⟨y, ys', hy, ih.mp hys, rfl⟩
      · rintro ⟨y, ys', hy, hys, rfl⟩
        exact bind_eq_ok_iff.mpr ⟨y, hy, bind_eq_ok_iff.mpr ⟨ys', ih.mpr hys, rfl⟩⟩

namespace Json

open Outcome

theorem mem_of_lookup {k : String} {v : Json} {ms : List (String × Json)}
    (h : lookup k ms = some v) : (k, v) ∈ ms := by
  induction ms with
  | nil => cases h
  | cons m ms ih =>
      obtain ⟨k', v'⟩ := m
      rw [lookup] at h
      split at h
      next hk =>
        cases h
        exact hk ▸ List.mem_cons_self
      next => exact List.mem_cons_of_mem _ (ih h)

namespace Decoder

variable {v : Json} {s : String} {n : Nat} {i : Int}

theorem string_eq_ok_iff : string v = .ok s ↔ v = .string s := by
  cases v <;> simp [string]

theorem integerIn_eq_ok_iff {low high : Int} {wanted : String} :
    integerIn low high wanted v = .ok i ↔ v = .integer i ∧ low ≤ i ∧ i ≤ high := by
  cases v with
  | integer n =>
      have hread : integerIn low high wanted (.integer n) =
          if low ≤ n ∧ n ≤ high then .ok n else .error (.invalidValue (.integer n) wanted) := rfl
      rw [hread]
      by_cases hbounds : low ≤ n ∧ n ≤ high
      · rw [if_pos hbounds]
        constructor
        · rintro ⟨⟩
          exact ⟨rfl, hbounds⟩
        · rintro ⟨⟨⟩, -⟩
          rfl
      · rw [if_neg hbounds]
        refine iff_of_false nofun ?_
        rintro ⟨⟨⟩, hin⟩
        exact hbounds hin
  | _ => exact iff_of_false nofun nofun

theorem word64_eq_ok_iff : word64 v = .ok n ↔ v = .nat n ∧ n ≤ Text.maxWord64 := by
  unfold word64 natUpTo
  rw [map_eq_ok_iff]
  simp only [integerIn_eq_ok_iff]
  constructor
  · rintro ⟨i, ⟨rfl, hlow, hhigh⟩, rfl⟩
    refine ⟨?_, by omega⟩
    rw [nat, Int.toNat_of_nonneg hlow]
  · rintro ⟨rfl, hle⟩
    exact ⟨n, ⟨rfl, by omega, by omega⟩, rfl⟩

theorem int64_eq_ok_iff : int64 v = .ok i ↔
    v = .integer i ∧ -(Text.maxInt64 : Int) - 1 ≤ i ∧ i ≤ Text.maxInt64 :=
  integerIn_eq_ok_iff

theorem list_eq_ok_iff {α : Type} {d : Decoder α} {xs : List α} : list d v = .ok xs ↔
    ∃ vs, v = .array vs ∧ List.Forall₂ (fun v x => d v = .ok x) vs xs := by
  cases v with
  | array vs =>
      rw [list, mapM_eq_ok_iff]
      exact ⟨fun h => ⟨vs, rfl, h⟩, fun ⟨_, hv, h⟩ => by cases hv; exact h⟩
  | _ => exact iff_of_false nofun nofun

end Decoder

namespace Fields

variable {α β : Type} {ms : List (String × Json)} {xs rest : List Json} {a : α} {b : β}
  {name wanted : String} {k : Nat}

section Object

theorem ofObject_eq_ok_iff {f : Fields α} :
    f.ofObject ms = .ok a ↔ f.firstFault? ms = none ∧ f.ofMembers ms = .ok a := by
  unfold ofObject
  cases f.firstFault? ms <;> simp

theorem firstFault?_eq_none_iff {f : Fields α} :
    f.firstFault? ms = none ↔ ∀ m ∈ ms, f.fault? m.1 m.2 = none :=
  List.findSome?_eq_none_iff

theorem ofObject_map_eq_ok_iff {g : α → β} {f : Fields α} :
    (g <$> f).ofObject ms = .ok b ↔ ∃ a, f.ofObject ms = .ok a ∧ g a = b := by
  have hmembers : (g <$> f).ofMembers ms = (f.ofMembers ms).map g := rfl
  have hfault : (g <$> f).firstFault? ms = f.firstFault? ms := rfl
  simp only [ofObject_eq_ok_iff, hfault, hmembers, map_eq_ok_iff]
  exact ⟨fun ⟨hf, a, ha, hb⟩ => ⟨a, ⟨hf, ha⟩, hb⟩, fun ⟨a, ⟨hf, ha⟩, hb⟩ => ⟨hf, a, ha, hb⟩⟩

theorem ofObject_seq_eq_ok_iff {f : Fields (α → β)} {x : Fields α} :
    (f <*> x).ofObject ms = .ok b ↔
      ∃ g, f.ofObject ms = .ok g ∧ ∃ a, x.ofObject ms = .ok a ∧ g a = b := by
  have hfault : (f <*> x).firstFault? ms = none ↔
      f.firstFault? ms = none ∧ x.firstFault? ms = none := by
    have hmember : ∀ m : String × Json, (f <*> x).fault? m.1 m.2 =
        (f.fault? m.1 m.2).or (x.fault? m.1 m.2) := fun _ => rfl
    simp only [firstFault?_eq_none_iff, hmember, Option.or_eq_none_iff]
    exact ⟨fun h => ⟨fun m hm => (h m hm).1, fun m hm => (h m hm).2⟩,
      fun h m hm => ⟨h.1 m hm, h.2 m hm⟩⟩
  have hmembers : (f <*> x).ofMembers ms = .ok b ↔
      ∃ g, f.ofMembers ms = .ok g ∧ ∃ a, x.ofMembers ms = .ok a ∧ g a = b := by
    have hseq : (f <*> x).ofMembers ms =
        f.ofMembers ms >>= fun g => x.ofMembers ms >>= fun a => .ok (g a) := rfl
    simp only [hseq, bind_eq_ok_iff, Except.ok.injEq]
  simp only [ofObject_eq_ok_iff, hfault, hmembers]
  constructor
  · rintro ⟨⟨hf, hx⟩, g, hg, a, ha, hb⟩
    exact ⟨g, ⟨hf, hg⟩, a, ⟨hx, ha⟩, hb⟩
  · rintro ⟨g, ⟨hf, hg⟩, a, ⟨hx, ha⟩, hb⟩
    exact ⟨⟨hf, hx⟩, g, hg, a, ha, hb⟩

theorem faultOf_eq_none_iff {d : Decoder α} {v : Json} : faultOf d v = none ↔ ∃ a, d v = .ok a := by
  unfold faultOf
  cases d v <;> simp

theorem firstFault?_field_eq_none_iff {d : Decoder α} {inObject inArray : Option α} :
    (field name d inObject inArray).firstFault? ms = none ↔
      ∀ v, (name, v) ∈ ms → ∃ a, d v = .ok a := by
  simp only [firstFault?_eq_none_iff, field]
  constructor
  · intro h v hv
    have hnone := h _ hv
    rw [if_pos rfl] at hnone
    exact faultOf_eq_none_iff.mp hnone
  · rintro h ⟨key, v⟩ hm
    by_cases hkey : key = name
    · subst hkey
      rw [if_pos rfl]
      exact faultOf_eq_none_iff.mpr (h v hm)
    · exact if_neg hkey

/-- A field that has to be there is read from the member of its name, and every member of this
name can be read. -/
theorem ofObject_required_eq_ok_iff {d : Decoder α} : (required name d).ofObject ms = .ok a ↔
    (∃ v, lookup name ms = some v ∧ d v = .ok a) ∧ ∀ v, (name, v) ∈ ms → ∃ a', d v = .ok a' := by
  have hmembers : (required name d).ofMembers ms = .ok a ↔
      ∃ v, lookup name ms = some v ∧ d v = .ok a := by
    simp only [required, field]
    cases lookup name ms <;> simp
  rw [ofObject_eq_ok_iff, hmembers, and_comm]
  exact and_congr_right fun _ => firstFault?_field_eq_none_iff

/-- A field with a value of its own has that value where no member has its name. -/
theorem ofObject_withDefault_eq_ok_iff {d : Decoder α} {missing : α} :
    (withDefault name d missing).ofObject ms = .ok a ↔
      (lookup name ms).elim (missing = a) (fun v => d v = .ok a) ∧
        ∀ v, (name, v) ∈ ms → ∃ a', d v = .ok a' := by
  have hmembers : (withDefault name d missing).ofMembers ms = .ok a ↔
      (lookup name ms).elim (missing = a) fun v => d v = .ok a := by
    simp only [withDefault, field]
    cases lookup name ms <;> simp
  rw [ofObject_eq_ok_iff, hmembers, and_comm]
  exact and_congr_right fun _ => firstFault?_field_eq_none_iff

end Object

section Array

theorem ofArray_eq_ok_iff {f : Fields α} :
    f.ofArray wanted xs = .ok a ↔ f.ofItems wanted 0 xs = .ok (a, []) := by
  unfold ofArray
  rw [bind_eq_ok_iff]
  constructor
  · rintro ⟨⟨a', rest⟩, hitems, h⟩
    cases rest with
    | nil =>
        cases h
        exact hitems
    | cons v rest => cases h
  · intro h
    exact ⟨(a, []), h, rfl⟩

theorem ofItems_map_eq_ok_iff {g : α → β} {f : Fields α} :
    (g <$> f).ofItems wanted k xs = .ok (b, rest) ↔
      ∃ a, f.ofItems wanted k xs = .ok (a, rest) ∧ g a = b := by
  have hmap : (g <$> f).ofItems wanted k xs =
      (f.ofItems wanted k xs).map fun r => (g r.1, r.2) := rfl
  rw [hmap, map_eq_ok_iff]
  constructor
  · rintro ⟨⟨a, rest'⟩, ha, h⟩
    cases h
    exact ⟨a, ha, rfl⟩
  · rintro ⟨a, ha, rfl⟩
    exact ⟨(a, rest), ha, rfl⟩

theorem ofItems_seq_eq_ok_iff {f : Fields (α → β)} {x : Fields α} :
    (f <*> x).ofItems wanted k xs = .ok (b, rest) ↔
      ∃ g ys, f.ofItems wanted k xs = .ok (g, ys) ∧
        ∃ a, x.ofItems wanted (k + f.names.length) ys = .ok (a, rest) ∧ g a = b := by
  have hseq : (f <*> x).ofItems wanted k xs = f.ofItems wanted k xs >>= fun r =>
      x.ofItems wanted (k + f.names.length) r.2 >>= fun q => .ok (r.1 q.1, q.2) := rfl
  simp only [hseq, bind_eq_ok_iff]
  constructor
  · rintro ⟨⟨g, ys⟩, hg, ⟨a, rest'⟩, ha, h⟩
    cases h
    exact ⟨g, ys, hg, a, ha, rfl⟩
  · rintro ⟨g, ys, hg, a, ha, rfl⟩
    exact ⟨(g, ys), hg, (a, rest), ha, rfl⟩

/-- A field that has to be there is read from the first item. -/
theorem ofItems_required_eq_ok_iff {d : Decoder α} :
    (required name d).ofItems wanted k xs = .ok (a, rest) ↔
      ∃ v, xs = v :: rest ∧ d v = .ok a := by
  simp only [required, field]
  cases xs with
  | nil => exact iff_of_false nofun nofun
  | cons v ys =>
      simp only [map_eq_ok_iff, Prod.mk.injEq, List.cons.injEq]
      constructor
      · rintro ⟨a', ha, rfl, rfl⟩
        exact ⟨v, ⟨rfl, rfl⟩, ha⟩
      · rintro ⟨v', ⟨rfl, rfl⟩, ha⟩
        exact ⟨a, ha, rfl, rfl⟩

end Array

theorem record_eq_ok_iff {f : Fields α} {v : Json} : f.record name v = .ok a ↔
    (∃ ms, v = .object ms ∧ f.ofObject ms = .ok a) ∨
      ∃ xs, v = .array xs ∧ f.ofItems (f.sized ("struct " ++ name)) 0 xs = .ok (a, []) := by
  cases v with
  | object ms =>
      constructor
      · exact fun h => .inl ⟨ms, rfl, h⟩
      · rintro (⟨ms', hms, h⟩ | ⟨xs, hxs, -⟩)
        · cases hms
          exact h
        · cases hxs
  | array xs =>
      constructor
      · exact fun h => .inr ⟨xs, rfl, ofArray_eq_ok_iff.mp h⟩
      · rintro (⟨ms, hms, -⟩ | ⟨xs', hxs, h⟩)
        · cases hms
        · cases hxs
          exact ofArray_eq_ok_iff.mpr h
  | _ => exact iff_of_false nofun (by rintro (⟨_, h, -⟩ | ⟨_, h, -⟩) <;> cases h)

end Fields

end Json

end LightServer
