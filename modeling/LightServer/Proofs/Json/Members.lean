import LightServer.Json.Basic
import Mathlib.Data.List.Basic

/-!
# Members in order

The members of an object are in the order of their keys, each key once, however they
were put together. Members that are in this order already are put together as they are.
-/

namespace LightServer.Json

variable {k k' : String} {v v' : Json} {ms : List (String × Json)}

def Rising (ms : List (String × Json)) : Prop := ms.Pairwise fun a b => a.1 < b.1

theorem rising_of_keys (h : (ms.map Prod.fst).Pairwise (· < ·)) : Rising ms := List.pairwise_map.mp h

theorem mem_insertMember {m : String × Json} (h : m ∈ insertMember k v ms) :
    m = (k, v) ∨ m ∈ ms := by
  induction ms with
  | nil => exact .inl (List.mem_singleton.mp h)
  | cons m' ms ih =>
      unfold insertMember at h
      split at h
      · exact List.mem_cons.mp h
      · split at h
        · exact (List.mem_cons.mp h).imp_right (List.mem_cons_of_mem _)
        · obtain rfl | h := List.mem_cons.mp h
          · exact .inr List.mem_cons_self
          · exact (ih h).imp_right (List.mem_cons_of_mem _)

theorem Rising.insertMember (h : Rising ms) (k : String) (v : Json) :
    Rising (insertMember k v ms) := by
  induction ms with
  | nil => exact List.pairwise_singleton _ _
  | cons m ms ih =>
      obtain ⟨k', v'⟩ := m
      obtain ⟨hfirst, hrest⟩ := List.pairwise_cons.mp h
      unfold Json.insertMember
      split
      next hlt =>
        refine List.pairwise_cons.mpr ⟨fun m hm => ?_, h⟩
        obtain rfl | hm := List.mem_cons.mp hm
        · exact hlt
        · exact String.lt_trans hlt (hfirst m hm)
      next hnot =>
        split
        next heq => exact List.pairwise_cons.mpr ⟨fun m hm => heq ▸ hfirst m hm, hrest⟩
        next hne =>
          have hlt : k' < k := Std.lt_of_le_of_ne hnot (Ne.symm hne)
          refine List.pairwise_cons.mpr ⟨fun m hm => ?_, ih hrest⟩
          obtain rfl | hm := mem_insertMember hm
          · exact hlt
          · exact hfirst m hm

def collect (ms : List (String × Json)) : List (String × Json) :=
  ms.foldl (fun acc m => insertMember m.1 m.2 acc) []

theorem ofMembers_eq (ms : List (String × Json)) : ofMembers ms = .object (collect ms) := rfl

theorem foldl_insertMember {p : List (String × Json) → Prop}
    (hp : ∀ m ∈ ms, ∀ acc, p acc → p (insertMember m.1 m.2 acc)) {acc : List (String × Json)}
    (hacc : p acc) : p (ms.foldl (fun acc m => insertMember m.1 m.2 acc) acc) := by
  induction ms generalizing acc with
  | nil => exact hacc
  | cons m ms ih =>
      obtain ⟨hm, hms⟩ := List.forall_mem_cons.mp hp
      exact ih hms (hm acc hacc)

theorem rising_collect (ms : List (String × Json)) : Rising (collect ms) :=
  foldl_insertMember (fun m _ _ h => h.insertMember m.1 m.2) List.Pairwise.nil

/-- The members of an object are among those that it was put together from. -/
theorem mem_of_mem_collect {m : String × Json} (h : m ∈ collect ms) : m ∈ ms := by
  have hsub : ∀ m ∈ collect ms, m ∈ ms := by
    refine foldl_insertMember (p := fun acc => ∀ m ∈ acc, m ∈ ms) ?_ nofun
    intro m hm acc hacc m' hm'
    obtain rfl | hm' := mem_insertMember hm'
    · exact hm
    · exact hacc m' hm'
  exact hsub m h

theorem insertMember_of_forall_lt (h : ∀ m ∈ ms, m.1 < k) :
    insertMember k v ms = ms ++ [(k, v)] := by
  induction ms with
  | nil => rfl
  | cons m ms ih =>
      obtain ⟨k', v'⟩ := m
      obtain ⟨hlt, hms⟩ := List.forall_mem_cons.mp h
      have hne : k ≠ k' := by
        rintro rfl
        exact String.lt_irrefl _ hlt
      rw [insertMember, if_neg (String.lt_asymm hlt), if_neg hne, ih hms]
      rfl

theorem Rising.foldl_insertMember {acc : List (String × Json)} (h : Rising (acc ++ ms)) :
    ms.foldl (fun acc m => Json.insertMember m.1 m.2 acc) acc = acc ++ ms := by
  induction ms generalizing acc with
  | nil => exact (List.append_nil acc).symm
  | cons m ms ih =>
      have hlt : ∀ m' ∈ acc, m'.1 < m.1 := fun m' hm' =>
        (List.pairwise_append.mp h).2.2 m' hm' m List.mem_cons_self
      rw [List.foldl_cons, insertMember_of_forall_lt hlt, ih (by simpa using h)]
      simp

/-- Members in order are put together as they are. -/
theorem Rising.ofMembers_eq (h : Rising ms) : ofMembers ms = .object ms := by
  have hnil : Rising ([] ++ ms) := h
  exact congrArg object hnil.foldl_insertMember

theorem lookup_insertMember_of_ne (h : k ≠ k') : lookup k (insertMember k' v ms) = lookup k ms := by
  induction ms with
  | nil => simp [insertMember, lookup, h]
  | cons m ms ih =>
      obtain ⟨k'', v''⟩ := m
      unfold insertMember
      split
      · rw [lookup, if_neg h]
      · split
        next heq =>
          subst heq
          rw [lookup, if_neg h, lookup, if_neg h]
        next => rw [lookup, ih, lookup]

/-- An object has the members that it is put together from, if no key is there twice. -/
theorem get?_ofMembers (hkeys : (ms.map Prod.fst).Nodup) (hmem : (k, v) ∈ ms) :
    (ofMembers ms).get? k = some v := by
  have hkeep {ms : List (String × Json)} (hnot : k ∉ ms.map Prod.fst) {acc : List (String × Json)}
      (hacc : lookup k acc = some v) :
      lookup k (ms.foldl (fun acc m => insertMember m.1 m.2 acc) acc) = some v := by
    refine foldl_insertMember (p := fun acc => lookup k acc = some v) ?_ hacc
    intro m hm acc h
    have hne : k ≠ m.1 := fun heq => hnot (heq ▸ List.mem_map_of_mem hm)
    rw [lookup_insertMember_of_ne hne, h]
  obtain ⟨before, after, rfl⟩ := List.append_of_mem hmem
  rw [List.map_append, List.nodup_append] at hkeys
  obtain ⟨hnot, -⟩ := List.nodup_cons.mp hkeys.2.1
  unfold ofMembers get?
  rw [List.foldl_append, List.foldl_cons]
  exact hkeep hnot (lookup_insertMember_self k v _)

/-- Objects with the same keys have the same members if they are equal. -/
theorem eq_of_ofMembers_eq {ms' : List (String × Json)} (h : ofMembers ms = ofMembers ms')
    (hkeys : (ms.map Prod.fst).Nodup) (hsame : ms.map Prod.fst = ms'.map Prod.fst) : ms = ms' := by
  have hlength : ms.length = ms'.length := by simpa using congrArg List.length hsame
  refine List.ext_getElem hlength fun i hi hi' => ?_
  have hkey : ms[i].1 = ms'[i].1 := by
    have := List.getElem_of_eq hsame (i := i) (by simpa using hi)
    simpa using this
  have hvalue : (ofMembers ms).get? ms[i].1 = some ms[i].2 :=
    get?_ofMembers hkeys (List.getElem_mem hi)
  have hvalue' : (ofMembers ms').get? ms'[i].1 = some ms'[i].2 :=
    get?_ofMembers (hsame ▸ hkeys) (List.getElem_mem hi')
  rw [h, hkey, hvalue', Option.some.injEq] at hvalue
  exact Prod.ext hkey hvalue.symm

theorem nat_injective : Function.Injective nat := fun _ _ h => Int.ofNat_inj.mp (integer.inj h)

theorem listOf_injective {α : Type} {f : α → Json} (hf : Function.Injective f) :
    Function.Injective (listOf f) := by
  intro xs ys h
  exact List.map_injective_iff.mpr hf (Json.array.inj h)

end LightServer.Json
