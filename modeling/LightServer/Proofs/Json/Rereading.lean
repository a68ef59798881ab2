import LightServer.Json.Parser
import LightServer.Json.Printer
import LightServer.Proofs.Json.Members
import LightServer.Proofs.Json.Numbers
import LightServer.Proofs.Json.Strings

/-!
# Reading what was written

The compact form of a value is read as the value again, with one exception. A number with
a fraction or an exponent is written with its shortest digits, and reading these rounds
more than once, so the number that is read may be a neighbour of it, or none at all.
-/

namespace LightServer.Json

variable {fuel depth : Nat} {v : Json} {vs : List Json} {ms : List (String × Json)}
  {s r : List Char}

/-- The value nests no deeper than `depth`, its whole numbers have 64 bits, and the members of
its objects are in order. -/
inductive Readable : Nat → Json → Prop
  | null {depth : Nat} : Readable depth .null
  | bool {depth : Nat} (b : Bool) : Readable depth (.bool b)
  | integer {depth : Nat} {n : Int} (h : Word64 n) : Readable depth (.integer n)
  | float {depth : Nat} (x : Binary64) : Readable depth (.float x)
  | string {depth : Nat} (s : String) : Readable depth (.string s)
  | array {depth : Nat} {vs : List Json} (h : ∀ v ∈ vs, Readable depth v) :
      Readable (depth + 1) (.array vs)
  | object {depth : Nat} {ms : List (String × Json)} (horder : Rising ms)
      (h : ∀ m ∈ ms, Readable depth m.2) : Readable (depth + 1) (.object ms)

def rereadFloat (x : Binary64) : Option Json := (readNumber (Shortest.json x).toList).map Prod.fst

mutual

def reread : Json → Option Json
  | float x => rereadFloat x
  | array vs => (rereadItems vs).map array
  | object ms => (rereadMembers ms).map object
  | null => some null
  | bool b => some (bool b)
  | integer n => some (integer n)
  | string s => some (string s)

def rereadItems : List Json → Option (List Json)
  | [] => some []
  | v :: vs => (reread v).bind fun v' => (rereadItems vs).map (v' :: ·)

def rereadMembers : List (String × Json) → Option (List (String × Json))
  | [] => some []
  | (k, v) :: ms => (reread v).bind fun v' => (rereadMembers ms).map ((k, v') :: ·)

end

def OpensValue (c : Char) : Prop :=
  c ∈ ['n', 't', 'f', '"', '[', '\x7b', '-'] ∨ c.isDigit = true

section Dispatch

variable {c : Char}

theorem not_blank_of_opensValue (h : OpensValue c) :
    ¬ (c = ' ' ∨ c = '\n' ∨ c = '\t' ∨ c = '\r') ∧ c ≠ ']' := by
  unfold OpensValue at h
  constructor
  · rintro (rfl | rfl | rfl | rfl) <;> revert h <;> decide
  · rintro rfl
    revert h
    decide

theorem skipBlanks_of_opensValue (h : OpensValue c) (s : List Char) :
    skipBlanks (c :: s) = c :: s := by
  rw [skipBlanks, if_neg (not_blank_of_opensValue h).1]

theorem readValue_string (fuel depth : Nat) (s : List Char) :
    readValue (fuel + 1) depth ('"' :: s) = (readString s).map fun (t, r) => (.string t, r) := by
  simp [readValue, skipBlanks]

theorem opensValue_of_number (hc : c = '-' ∨ c.isDigit = true) : OpensValue c := by
  obtain rfl | hc := hc
  · exact .inl (by decide)
  · exact .inr hc

/-- A number begins like no other value. -/
theorem notMem_of_number (hc : c = '-' ∨ c.isDigit = true) :
    c ∉ ['"', 'n', 't', 'f', '[', '\x7b'] := by
  intro hmem
  simp only [List.mem_cons, List.not_mem_nil, or_false] at hmem
  obtain rfl | rfl | rfl | rfl | rfl | rfl := hmem <;> revert hc <;> decide

theorem readValue_number (fuel depth : Nat) (hc : c = '-' ∨ c.isDigit = true) (s : List Char) :
    readValue (fuel + 1) depth (c :: s) = readNumber (c :: s) := by
  have hother := notMem_of_number hc
  rw [readValue, skipBlanks_of_opensValue (opensValue_of_number hc)]
  split <;> simp_all

theorem readValue_array_nil (fuel depth : Nat) (s : List Char) :
    readValue (fuel + 1) (depth + 1) ('[' :: ']' :: s) = some (.array [], s) := by
  simp [readValue, skipBlanks]

theorem readValue_array (fuel depth : Nat) (h : OpensValue c) (s : List Char) :
    readValue (fuel + 1) (depth + 1) ('[' :: c :: s) =
      (readItems fuel depth (c :: s)).map fun (xs, r) => (.array xs, r) := by
  have hbracket := (not_blank_of_opensValue h).2
  have hskip : skipBlanks ('[' :: c :: s) = '[' :: c :: s := by simp [skipBlanks]
  rw [readValue, hskip]
  simp only [Nat.add_one_ne_zero, if_false, skipBlanks_of_opensValue h, Nat.add_sub_cancel]
  split
  next heq => exact absurd (List.head_eq_of_cons_eq heq) hbracket
  next => rfl

theorem readValue_object_nil (fuel depth : Nat) (s : List Char) :
    readValue (fuel + 1) (depth + 1) ('\x7b' :: '\x7d' :: s) = some (.object [], s) := by
  simp [readValue, skipBlanks]

theorem readValue_object (fuel depth : Nat) (s : List Char) :
    readValue (fuel + 1) (depth + 1) ('\x7b' :: '"' :: s) =
      (readMembers fuel depth ('"' :: s)).map fun (ms, r) => (ofMembers ms, r) := by
  simp [readValue, skipBlanks]

end Dispatch

theorem exists_write_eq_cons (v : Json) : ∃ c s, v.write = c :: s ∧ OpensValue c := by
  have hnumber {n : Numeral} (hn : n.WellFormed) : ∃ c s, n.text = c :: s ∧ OpensValue c := by
    obtain ⟨c, s, htext, hc⟩ := Numeral.exists_text_eq_cons hn
    exact ⟨c, s, htext, opensValue_of_number hc⟩
  cases v with
  | null => exact ⟨_, _, rfl, .inl (by decide)⟩
  | bool b => cases b <;> exact ⟨_, _, rfl, .inl (by decide)⟩
  | integer n =>
      rw [write, ← Numeral.text_ofInt]
      exact hnumber (Numeral.wellFormed_ofInt n)
  | float x =>
      obtain ⟨n, hn, htext, -⟩ := Shortest.exists_numeral_json x
      rw [write, htext]
      exact hnumber hn
  | string s => exact ⟨'"', s.toList.flatMap escape ++ ['"'], rfl, .inl (by decide)⟩
  | array vs => exact ⟨'[', writeItems true vs ++ [']'], by rw [write]; rfl, .inl (by decide)⟩
  | object ms =>
      exact ⟨'\x7b', writeMembers true ms ++ ['\x7d'], by rw [write]; rfl, .inl (by decide)⟩

theorem readNumber_text {n : Numeral} (hn : n.WellFormed) (hr : EndsNumber r) :
    readNumber (n.text ++ r) = n.parts.value?.map (·, r) := by
  simp only [readNumber, Numeral.scanNumber_text hn hr, Option.bind_eq_bind, Option.bind_some,
    Option.pure_def]
  cases n.parts.value? <;> rfl

theorem readValue_text {n : Numeral} (hn : n.WellFormed) (hr : EndsNumber r)
    (hfuel : 0 < fuel) : readValue fuel depth (n.text ++ r) = n.parts.value?.map (·, r) := by
  obtain ⟨k, rfl⟩ : ∃ k, fuel = k + 1 := ⟨fuel - 1, by omega⟩
  obtain ⟨c, s, htext, hc⟩ := Numeral.exists_text_eq_cons hn
  rw [← readNumber_text hn hr, htext, List.cons_append]
  exact readValue_number k depth hc (s ++ r)

theorem rereadFloat_eq {x : Binary64} {n : Numeral} (hn : n.WellFormed)
    (htext : (Shortest.json x).toList = n.text) : rereadFloat x = n.parts.value? := by
  have h := readNumber_text hn endsNumber_nil
  rw [List.append_nil] at h
  rw [rereadFloat, htext, h]
  cases n.parts.value? <;> rfl

theorem writeItems_false_cons (v : Json) (vs : List Json) :
    writeItems false (v :: vs) = ',' :: writeItems true (v :: vs) := by
  simp [writeItems]

theorem writeMembers_false_cons (m : String × Json) (ms : List (String × Json)) :
    writeMembers false (m :: ms) = ',' :: writeMembers true (m :: ms) := by
  simp [writeMembers]

/-- Reading the written form of the value, whatever comes after it, gives what the value is read
as. -/
def ReadBack (depth : Nat) (v : Json) : Prop :=
  ∀ fuel r, EndsNumber r → 2 * v.write.length ≤ fuel →
    readValue fuel depth (v.write ++ r) = (reread v).map (·, r)

theorem readItems_writeItems (hvs : ∀ w ∈ v :: vs, ReadBack depth w)
    (hfuel : 2 * (writeItems true (v :: vs)).length + 1 ≤ fuel) :
    readItems fuel depth (writeItems true (v :: vs) ++ ']' :: r) =
      (rereadItems (v :: vs)).map (·, r) := by
  obtain ⟨k, rfl⟩ : ∃ k, fuel = k + 1 := ⟨fuel - 1, by omega⟩
  induction vs generalizing v k with
  | nil =>
      -- what follows an item, a bracket or a comma, cannot belong to a number
      have hv := hvs v List.mem_cons_self k (']' :: r)
        (endsNumber_cons rfl (by decide) (by decide) (by decide))
        (by simp [writeItems] at hfuel; omega)
      simp only [writeItems, if_true, List.nil_append, List.append_nil, readItems, hv, rereadItems]
      cases reread v <;> simp [skipBlanks]
  | cons w vs ih =>
      have hlength : (writeItems true (v :: w :: vs)).length =
          v.write.length + ((writeItems true (w :: vs)).length + 1) := by
        rw [writeItems, writeItems_false_cons]
        simp
      have hv := hvs v List.mem_cons_self k (',' :: (writeItems true (w :: vs) ++ ']' :: r))
        (endsNumber_cons rfl (by decide) (by decide) (by decide)) (by omega)
      obtain ⟨k, rfl⟩ : ∃ j, k = j + 1 := ⟨k - 1, by omega⟩
      have hrest := ih (v := w) (fun x hx => hvs x (List.mem_cons_of_mem _ hx)) k (by omega)
      have htext : writeItems true (v :: w :: vs) ++ ']' :: r =
          v.write ++ ',' :: (writeItems true (w :: vs) ++ ']' :: r) := by
        rw [writeItems, writeItems_false_cons]
        simp
      rw [htext, readItems, hv, rereadItems]
      cases reread v with
      | none => rfl
      | some v' =>
          have hcomma (t : List Char) : skipBlanks (',' :: t) = ',' :: t := by simp [skipBlanks]
          simp only [Option.map_some, hcomma, hrest, Option.bind_some, Option.map_map]
          rfl

theorem writeMembers_true_append (m : String × Json) (ms : List (String × Json)) (t : List Char) :
    writeMembers true (m :: ms) ++ t = '"' :: (m.1.toList.flatMap escape ++
      '"' :: ':' :: (m.2.write ++ (writeMembers false ms ++ t))) := by
  simp [writeMembers, writeString]

theorem readMembers_key (fuel depth : Nat) (key : String) (s : List Char) :
    readMembers (fuel + 1) depth ('"' :: (key.toList.flatMap escape ++ '"' :: ':' :: s)) =
      (readValue fuel depth s).bind fun x =>
        match skipBlanks x.2 with
        | '\x7d' :: s => some ([(key, x.1)], s)
        | ',' :: s => (readMembers fuel depth s).map fun (ms, r) => ((key, x.1) :: ms, r)
        | _ => none := by
  have hquote (t : List Char) : skipBlanks ('"' :: t) = '"' :: t := by simp [skipBlanks]
  have hcolon (t : List Char) : skipBlanks (':' :: t) = ':' :: t := by simp [skipBlanks]
  simp only [readMembers, hquote, readString_flatMap_escape, hcolon]
  cases readValue fuel depth s <;> rfl

theorem readMembers_writeMembers {m : String × Json}
    (hms : ∀ m' ∈ m :: ms, ReadBack depth m'.2)
    (hfuel : 2 * (writeMembers true (m :: ms)).length + 1 ≤ fuel) :
    readMembers fuel depth (writeMembers true (m :: ms) ++ '\x7d' :: r) =
      (rereadMembers (m :: ms)).map (·, r) := by
  obtain ⟨k, rfl⟩ : ∃ k, fuel = k + 1 := ⟨fuel - 1, by omega⟩
  induction ms generalizing m k with
  | nil =>
      have hlength : m.2.write.length ≤ (writeMembers true [m]).length := by
        simp [writeMembers]
        omega
      have hv := hms m List.mem_cons_self k ('\x7d' :: r)
        (endsNumber_cons rfl (by decide) (by decide) (by decide)) (by omega)
      rw [writeMembers_true_append, readMembers_key, writeMembers, List.nil_append, hv,
        rereadMembers]
      cases reread m.2 <;> simp [skipBlanks, rereadMembers]
  | cons m' ms ih =>
      have hlength : m.2.write.length + ((writeMembers true (m' :: ms)).length + 1) ≤
          (writeMembers true (m :: m' :: ms)).length := by
        have htext := congrArg List.length (writeMembers_true_append m (m' :: ms) [])
        rw [writeMembers_false_cons] at htext
        simp at htext
        omega
      have hv := hms m List.mem_cons_self k (',' :: (writeMembers true (m' :: ms) ++ '\x7d' :: r))
        (endsNumber_cons rfl (by decide) (by decide) (by decide)) (by omega)
      obtain ⟨k, rfl⟩ : ∃ j, k = j + 1 := ⟨k - 1, by omega⟩
      have hrest := ih (m := m') (fun x hx => hms x (List.mem_cons_of_mem _ hx)) k (by omega)
      have hcomma (t : List Char) : skipBlanks (',' :: t) = ',' :: t := by simp [skipBlanks]
      rw [writeMembers_true_append, readMembers_key, writeMembers_false_cons, List.cons_append, hv,
        rereadMembers]
      cases reread m.2 with
      | none => rfl
      | some v' =>
          simp only [Option.map_some, Option.bind_some, hcomma, hrest, Option.map_map]
          rfl

theorem keys_rereadMembers {ms' : List (String × Json)} (h : rereadMembers ms = some ms') :
    ms'.map Prod.fst = ms.map Prod.fst := by
  induction ms generalizing ms' with
  | nil =>
      cases h
      rfl
  | cons m ms ih =>
      simp only [rereadMembers, Option.bind_eq_some_iff, Option.map_eq_some_iff] at h
      obtain ⟨v', -, ms'', hms, rfl⟩ := h
      simp [ih hms]

theorem Rising.rereadMembers {ms' : List (String × Json)} (horder : Rising ms)
    (h : rereadMembers ms = some ms') : Rising ms' := by
  unfold Rising at horder ⊢
  rw [← List.pairwise_map (f := Prod.fst) (R := (· < ·))] at horder ⊢
  rwa [keys_rereadMembers h]

theorem readBack_array (h : ∀ v ∈ vs, ReadBack depth v) : ReadBack (depth + 1) (.array vs) := by
  intro fuel r hr hfuel
  have hlength : (Json.array vs).write.length = (writeItems true vs).length + 2 := by
    simp [write]
  have htext : (Json.array vs).write ++ r = '[' :: (writeItems true vs ++ ']' :: r) := by
    simp [write]
  obtain ⟨k, rfl⟩ : ∃ k, fuel = k + 1 := ⟨fuel - 1, by omega⟩
  rw [htext, reread]
  cases vs with
  | nil => exact readValue_array_nil k depth r
  | cons v vs =>
      obtain ⟨c, s, hv, hc⟩ := exists_write_eq_cons v
      have hitems : readItems k depth (writeItems true (v :: vs) ++ ']' :: r) =
          (rereadItems (v :: vs)).map (·, r) := readItems_writeItems h (by omega)
      have hopens : writeItems true (v :: vs) ++ ']' :: r =
          c :: (s ++ (writeItems false vs ++ ']' :: r)) := by
        simp [writeItems, hv]
      rw [hopens] at hitems ⊢
      rw [readValue_array k depth hc, hitems, Option.map_map, Option.map_map]
      rfl

theorem readBack_object (horder : Rising ms) (h : ∀ m ∈ ms, ReadBack depth m.2) :
    ReadBack (depth + 1) (.object ms) := by
  intro fuel r hr hfuel
  have hlength : (Json.object ms).write.length = (writeMembers true ms).length + 2 := by
    simp [write]
  have htext : (Json.object ms).write ++ r = '\x7b' :: (writeMembers true ms ++ '\x7d' :: r) := by
    simp [write]
  obtain ⟨k, rfl⟩ : ∃ k, fuel = k + 1 := ⟨fuel - 1, by omega⟩
  rw [htext, reread]
  cases ms with
  | nil => exact readValue_object_nil k depth r
  | cons m ms =>
      have hmembers : readMembers k depth (writeMembers true (m :: ms) ++ '\x7d' :: r) =
          (rereadMembers (m :: ms)).map (·, r) := readMembers_writeMembers h (by omega)
      rw [writeMembers_true_append] at hmembers ⊢
      rw [readValue_object, hmembers, Option.map_map, Option.map_map]
      cases hreread : rereadMembers (m :: ms) with
      | none => rfl
      | some ms' =>
          -- the members are in order already, so collecting them changes nothing
          simp only [Option.map_some, Function.comp]
          rw [(horder.rereadMembers hreread).ofMembers_eq]

/-- A number is read back from its digits. -/
theorem readBack_text {n : Numeral} (hn : n.WellFormed) (hwrite : v.write = n.text)
    (hvalue : n.parts.value? = reread v) : ReadBack depth v := by
  intro fuel r hr hfuel
  obtain ⟨c, s, htext, -⟩ := Numeral.exists_text_eq_cons hn
  rw [hwrite, htext, List.length_cons] at hfuel
  rw [hwrite, readValue_text hn hr (by omega), hvalue]

/-- A value that can be read is read back from its written form, whatever comes after that. -/
theorem Readable.readBack (h : Readable depth v) : ReadBack depth v := by
  induction h with
  | null =>
      intro fuel r hr hfuel
      obtain ⟨k, rfl⟩ : ∃ k, fuel = k + 1 := ⟨fuel - 1, by simp [write] at hfuel; omega⟩
      simp [write, readValue, skipBlanks, reread]
  | bool b =>
      intro fuel r hr hfuel
      obtain ⟨k, rfl⟩ : ∃ k, fuel = k + 1 :=
        ⟨fuel - 1, by cases b <;> simp [write] at hfuel <;> omega⟩
      cases b <;> simp [write, readValue, skipBlanks, reread]
  | @integer depth n h =>
      refine readBack_text (Numeral.wellFormed_ofInt n) ?_ (value?_parts_ofInt h)
      rw [write, Numeral.text_ofInt]
  | float x =>
      obtain ⟨n, hn, hjson, -⟩ := Shortest.exists_numeral_json x
      refine readBack_text hn ?_ (rereadFloat_eq hn hjson).symm
      rw [write, hjson]
  | string s =>
      intro fuel r hr hfuel
      obtain ⟨k, rfl⟩ : ∃ k, fuel = k + 1 :=
        ⟨fuel - 1, by simp [write, writeString] at hfuel; omega⟩
      have htext : (Json.string s).write ++ r = '"' :: (s.toList.flatMap escape ++ '"' :: r) := by
        simp [write, writeString]
      rw [htext, readValue_string, readString_flatMap_escape, reread]
      rfl
  | array h ih => exact readBack_array ih
  | object horder h ih => exact readBack_object horder ih

/-- The compact form of a value is read as what `reread` says. -/
theorem Readable.parse_compact (h : Readable maxDepth v) : parse v.compact = reread v := by
  have hread := h.readBack (fuelFor v.write) [] endsNumber_nil (Nat.le_add_right _ 2)
  rw [List.append_nil] at hread
  simp only [parse, parseChars, compact, String.toList_ofList, hread]
  cases reread v <;> rfl

theorem readable_of_readNumber (h : readNumber s = some (v, r)) : Readable depth v := by
  simp only [readNumber, Option.bind_eq_bind, Option.bind_eq_some_iff, Option.pure_def,
    Option.some.injEq, Prod.mk.injEq] at h
  obtain ⟨⟨t, s'⟩, -, v', hvalue, rfl, -⟩ := h
  have hfloat (h : t.float? = some v') : Readable depth v' := by
    simp only [NumberText.float?, Option.map_eq_some_iff] at h
    obtain ⟨x, -, rfl⟩ := h
    exact .float _
  unfold NumberText.value? at hvalue
  split at hvalue
  · simp only at hvalue
    split at hvalue
    · split at hvalue
      · cases hvalue
        refine .integer ?_
        unfold Word64
        omega
      · exact hfloat hvalue
    · split at hvalue
      · cases hvalue
        refine .integer ?_
        unfold Word64
        omega
      · exact hfloat hvalue
  · exact hfloat hvalue

structure GivesReadable (fuel : Nat) : Prop where
  value : ∀ {depth s v r}, readValue fuel depth s = some (v, r) → Readable depth v
  items : ∀ {depth s vs r}, readItems fuel depth s = some (vs, r) → ∀ v ∈ vs, Readable depth v
  members : ∀ {depth s ms r}, readMembers fuel depth s = some (ms, r) →
    ∀ m ∈ ms, Readable depth m.2

theorem GivesReadable.value_succ (hfuel : GivesReadable fuel)
    (h : readValue (fuel + 1) depth s = some (v, r)) : Readable depth v := by
  rw [readValue] at h
  split at h
  next => cases h
  next =>
    simp only [Option.map_eq_some_iff] at h
    obtain ⟨x, -, hx⟩ := h
    cases hx
    exact .string _
  next =>
    cases h
    exact .null
  next =>
    cases h
    exact .bool _
  next =>
    cases h
    exact .bool _
  next =>
    obtain ⟨hdepth, h⟩ := Option.ite_none_left_eq_some.mp h
    obtain ⟨d, rfl⟩ := Nat.exists_eq_succ_of_ne_zero hdepth
    split at h
    next =>
      cases h
      exact .array nofun
    next =>
      simp only [Option.map_eq_some_iff] at h
      obtain ⟨⟨vs, r'⟩, hitems, hx⟩ := h
      cases hx
      exact .array (hfuel.items hitems)
  next =>
    obtain ⟨hdepth, h⟩ := Option.ite_none_left_eq_some.mp h
    obtain ⟨d, rfl⟩ := Nat.exists_eq_succ_of_ne_zero hdepth
    split at h
    next =>
      cases h
      exact .object List.Pairwise.nil nofun
    next =>
      simp only [Option.map_eq_some_iff] at h
      obtain ⟨⟨ms, r'⟩, hmembers, hx⟩ := h
      cases hx
      exact .object (rising_collect ms) fun m hm => hfuel.members hmembers m (mem_of_mem_collect hm)
  next => exact readable_of_readNumber h

theorem GivesReadable.items_succ (hfuel : GivesReadable fuel)
    (h : readItems (fuel + 1) depth s = some (vs, r)) : ∀ v ∈ vs, Readable depth v := by
  rw [readItems] at h
  split at h
  next => cases h
  next v s' hv =>
    split at h
    next =>
      cases h
      exact List.forall_mem_singleton.mpr (hfuel.value hv)
    next =>
      simp only [Option.map_eq_some_iff] at h
      obtain ⟨⟨vs, r'⟩, hitems, hx⟩ := h
      cases hx
      exact List.forall_mem_cons.mpr ⟨hfuel.value hv, hfuel.items hitems⟩
    next => cases h

theorem GivesReadable.members_succ (hfuel : GivesReadable fuel)
    (h : readMembers (fuel + 1) depth s = some (ms, r)) : ∀ m ∈ ms, Readable depth m.2 := by
  rw [readMembers] at h
  split at h
  next =>
    split at h
    next => cases h
    next =>
      split at h
      next =>
        split at h
        next => cases h
        next v s' hv =>
          split at h
          next =>
            cases h
            exact List.forall_mem_singleton.mpr (hfuel.value hv)
          next =>
            simp only [Option.map_eq_some_iff] at h
            obtain ⟨⟨ms, r'⟩, hmembers, hx⟩ := h
            cases hx
            exact List.forall_mem_cons.mpr ⟨hfuel.value hv, hfuel.members hmembers⟩
          next => cases h
      next => cases h
  next => cases h

theorem givesReadable (fuel : Nat) : GivesReadable fuel := by
  induction fuel with
  | zero => exact ⟨nofun, nofun, nofun⟩
  | succ fuel ih => exact ⟨ih.value_succ, ih.items_succ, ih.members_succ⟩

/-- What a text consists of can be read again. -/
theorem readable_of_parse {text : String} (h : parse text = some v) : Readable maxDepth v := by
  unfold parse parseChars at h
  split at h
  next => cases h
  next v' r hv =>
    obtain ⟨-, h⟩ := Option.ite_none_right_eq_some.mp h
    cases h
    exact (givesReadable _).value hv

theorem le_toNat_of_mem_text {n : Numeral} (hn : n.WellFormed) {c : Char} (hc : c ∈ n.text) :
    0x20 ≤ c.toNat := by
  obtain hc | hc := Numeral.mem_text hn hc
  · have hle : '0'.toNat ≤ c.toNat := (Char.isDigit_iff_toNat.mp hc).1
    exact Nat.le_trans (by decide) hle
  · simp only [List.mem_cons, List.not_mem_nil, or_false] at hc
    obtain rfl | rfl | rfl | rfl := hc <;> decide

theorem le_toNat_of_all (h : (s.all fun c => decide (0x20 ≤ c.toNat)) = true) :
    ∀ c ∈ s, 0x20 ≤ c.toNat := fun c hc =>
  of_decide_eq_true (List.all_eq_true.mp h c hc)

mutual

/-- The compact form of a value has no control characters, and so no line breaks. -/
theorem le_toNat_of_mem_write : (v : Json) → ∀ c ∈ v.write, 0x20 ≤ c.toNat
  | null => le_toNat_of_all rfl
  | bool true => le_toNat_of_all rfl
  | bool false => le_toNat_of_all rfl
  | integer n => by
      rw [write, ← Numeral.text_ofInt]
      exact fun c hc => le_toNat_of_mem_text (Numeral.wellFormed_ofInt n) hc
  | float x => by
      obtain ⟨n, hn, htext, -⟩ := Shortest.exists_numeral_json x
      rw [write, htext]
      exact fun c hc => le_toNat_of_mem_text hn hc
  | string s => fun c hc => le_toNat_of_mem_writeString hc
  | array vs => by
      simp only [write, List.cons_append, List.forall_mem_cons, List.forall_mem_append]
      exact ⟨by decide, le_toNat_of_mem_writeItems true vs, by decide, nofun⟩
  | object ms => by
      simp only [write, List.cons_append, List.forall_mem_cons, List.forall_mem_append]
      exact ⟨by decide, le_toNat_of_mem_writeMembers true ms, by decide, nofun⟩

theorem le_toNat_of_mem_writeItems (first : Bool) :
    (vs : List Json) → ∀ c ∈ writeItems first vs, 0x20 ≤ c.toNat
  | [] => nofun
  | v :: vs => by
      simp only [writeItems, List.forall_mem_append]
      exact ⟨⟨le_toNat_of_all (by cases first <;> rfl), le_toNat_of_mem_write v⟩,
        le_toNat_of_mem_writeItems false vs⟩

theorem le_toNat_of_mem_writeMembers (first : Bool) :
    (ms : List (String × Json)) → ∀ c ∈ writeMembers first ms, 0x20 ≤ c.toNat
  | [] => nofun
  | (k, v) :: ms => by
      simp only [writeMembers, List.forall_mem_append, List.forall_mem_cons]
      exact ⟨⟨⟨le_toNat_of_all (by cases first <;> rfl),
        fun c hc => le_toNat_of_mem_writeString hc⟩, by decide, le_toNat_of_mem_write v⟩,
        le_toNat_of_mem_writeMembers false ms⟩

end

end LightServer.Json
