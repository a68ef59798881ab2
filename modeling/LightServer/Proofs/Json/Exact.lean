import LightServer.Json.Decode
import LightServer.Proofs.Json.Rereading
import LightServer.Proofs.Outcome

/-!
# Values that survive being written

A value without fractions and exponents is read back from its compact form as it is, when
its whole numbers have 64 bits. Records are such values when their fields are. What a
decoder makes of a value keeps the bounds that the decoders of its fields check.
-/

namespace LightServer.Json

open Outcome

variable {depth : Nat} {v : Json} {vs : List Json} {ms : List (String × Json)}

/-- The value can be read, and is read back as it is. -/
structure Exact (depth : Nat) (v : Json) : Prop where
  readable : Readable depth v
  reread_eq : reread v = some v

theorem Exact.parse_compact (h : Exact maxDepth v) : parse v.compact = some v :=
  h.readable.parse_compact.trans h.reread_eq

theorem Exact.string (depth : Nat) (s : String) : Exact depth (.string s) := ⟨.string s, rfl⟩

theorem Exact.integer (depth : Nat) {n : Int} (h : Word64 n) : Exact depth (.integer n) :=
  ⟨.integer h, rfl⟩

theorem Exact.nat (depth : Nat) {n : Nat} (h : n ≤ Text.maxWord64) : Exact depth (.nat n) := by
  refine .integer depth ?_
  unfold Word64
  omega

theorem Exact.array (h : ∀ v ∈ vs, Exact depth v) : Exact (depth + 1) (.array vs) := by
  refine ⟨.array fun v hv => (h v hv).readable, ?_⟩
  have hitems : rereadItems vs = some vs := by
    induction vs with
    | nil => rfl
    | cons v vs ih =>
        obtain ⟨hv, hvs⟩ := List.forall_mem_cons.mp h
        simp only [rereadItems, hv.reread_eq, ih hvs, Option.bind_some, Option.map_some]
  rw [reread, hitems]
  rfl

theorem Exact.listOf {α : Type} {f : α → Json} {xs : List α} (h : ∀ x ∈ xs, Exact depth (f x)) :
    Exact (depth + 1) (listOf f xs) := by
  refine .array fun v hv => ?_
  obtain ⟨x, hx, rfl⟩ := List.mem_map.mp hv
  exact h x hx

theorem rereadMembers_of_exact (h : ∀ m ∈ ms, Exact depth m.2) : rereadMembers ms = some ms := by
  induction ms with
  | nil => rfl
  | cons m ms ih =>
      obtain ⟨hm, hms⟩ := List.forall_mem_cons.mp h
      simp only [rereadMembers, hm.reread_eq, ih hms, Option.bind_some, Option.map_some]

/-- A record of such values is one as well. -/
theorem Exact.ofMembers (h : ∀ m ∈ ms, Exact depth m.2) : Exact (depth + 1) (ofMembers ms) := by
  have hcollect : ∀ m ∈ collect ms, Exact depth m.2 := fun m hm => h m (mem_of_mem_collect hm)
  rw [ofMembers_eq]
  refine ⟨.object (rising_collect ms) fun m hm => (hcollect m hm).readable, ?_⟩
  rw [reread, rereadMembers_of_exact hcollect]
  rfl

namespace Fields

variable {α β : Type} {P : α → Prop} {Q : β → Prop}

structure Ensures (f : Fields α) (P : α → Prop) : Prop where
  ofMembers : ∀ ms a, f.ofMembers ms = .ok a → P a
  ofItems : ∀ wanted i xs a rest, f.ofItems wanted i xs = .ok (a, rest) → P a

theorem Ensures.map {f : Fields α} {g : α → β} (h : f.Ensures P) (hg : ∀ a, P a → Q (g a)) :
    (g <$> f).Ensures Q where
  ofMembers ms b hb := by
    obtain ⟨a, ha, rfl⟩ := map_eq_ok_iff.mp hb
    exact hg a (h.ofMembers ms a ha)
  ofItems wanted i xs b _ hb := by
    obtain ⟨⟨a, rest⟩, ha, hab⟩ := map_eq_ok_iff.mp hb
    cases hab
    exact hg a (h.ofItems wanted i xs a rest ha)

theorem Ensures.seq {f : Fields (α → β)} {x : Fields α}
    (hf : f.Ensures fun g => ∀ a, P a → Q (g a)) (hx : x.Ensures P) : (f <*> x).Ensures Q where
  ofMembers ms b hb := by
    obtain ⟨g, hg, hb⟩ := bind_eq_ok_iff.mp hb
    obtain ⟨a, ha, hb⟩ := bind_eq_ok_iff.mp hb
    cases hb
    exact hf.ofMembers ms g hg a (hx.ofMembers ms a ha)
  ofItems wanted i xs b rest hb := by
    obtain ⟨⟨g, xs'⟩, hg, hb⟩ := bind_eq_ok_iff.mp hb
    obtain ⟨⟨a, xs''⟩, ha, hb⟩ := bind_eq_ok_iff.mp hb
    cases hb
    exact hf.ofItems wanted i xs g xs' hg a (hx.ofItems _ _ _ a _ ha)

theorem ensures_field {name : String} {d : Decoder α} {inObject inArray : Option α}
    (hd : ∀ v a, d v = .ok a → P a) (hobject : ∀ a ∈ inObject, P a) (harray : ∀ a ∈ inArray, P a) :
    (field name d inObject inArray).Ensures P where
  ofMembers ms a ha := by
    simp only [field] at ha
    split at ha
    next => exact hd _ a ha
    next =>
      cases ha
      exact hobject _ rfl
    next => cases ha
  ofItems wanted i xs a rest ha := by
    simp only [field] at ha
    split at ha
    next =>
      obtain ⟨a', ha', h⟩ := map_eq_ok_iff.mp ha
      cases h
      exact hd _ a ha'
    next =>
      cases ha
      exact harray _ rfl
    next => cases ha

theorem ensures_required {name : String} {d : Decoder α} (hd : ∀ v a, d v = .ok a → P a) :
    (required name d).Ensures P := ensures_field hd nofun nofun

/-- A record has what its fields ensure. -/
theorem Ensures.record {f : Fields α} (h : f.Ensures P) {name : String} {a : α}
    (ha : f.record name v = .ok a) : P a := by
  cases v with
  | array xs =>
      obtain ⟨⟨a', rest⟩, ha', ha⟩ := bind_eq_ok_iff.mp ha
      simp only at ha
      by_cases hrest : rest.isEmpty = true
      · rw [if_pos hrest] at ha
        cases ha
        exact h.ofItems _ _ _ _ _ ha'
      · rw [if_neg hrest] at ha
        cases ha
  | object ms =>
      simp only [Fields.record, ofObject] at ha
      split at ha
      · cases ha
      · exact h.ofMembers ms a ha
  | _ => cases ha

end Fields

namespace Decoder

theorem bounds_of_integerIn {low high i : Int} {wanted : String}
    (h : integerIn low high wanted v = .ok i) : low ≤ i ∧ i ≤ high := by
  unfold integerIn at h
  split at h
  · split at h
    next hbounds =>
      cases h
      exact hbounds
    next => cases h
  · cases h

theorem le_of_word64 {n : Nat} (h : word64 v = .ok n) : n ≤ Text.maxWord64 := by
  obtain ⟨i, hi, rfl⟩ := map_eq_ok_iff.mp h
  have := bounds_of_integerIn hi
  omega

end Decoder

end LightServer.Json
