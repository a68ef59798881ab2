import LightServer.Proofs.Json.Local
import LightServer.Proofs.Json.Scanning

/-!
# Where a value ends

Reading a value and passing over one tell the kinds of values apart by their first
characters, and go through lists of parts in the same way. So both depend on nothing that
comes after the value, except that a number must not go on there.
-/

namespace LightServer.Json

variable {α : Type} {c : Char} {fuel : Nat} {s t w r : List Char}

section Kinds

/-- What a reader of values does with each kind of them. Arrays and objects are read from behind
their opening brackets. -/
structure Kinds (α : Type) where
  string : List Char → Option (α × List Char)
  number : List Char → Option (α × List Char)
  null : α
  bool : Bool → α
  array : BoundedReader α
  object : BoundedReader α

namespace Kinds

def read (p : Kinds α) : BoundedReader α
  | 0, _ => none
  | fuel + 1, s =>
      match skipBlanks s with
      | [] => none
      | '"' :: s => p.string s
      | 'n' :: 'u' :: 'l' :: 'l' :: s => some (p.null, s)
      | 't' :: 'r' :: 'u' :: 'e' :: s => some (p.bool true, s)
      | 'f' :: 'a' :: 'l' :: 's' :: 'e' :: s => some (p.bool false, s)
      | '[' :: s => p.array fuel s
      | '\x7b' :: s => p.object fuel s
      | s => p.number s

variable {p : Kinds α} {x : α}

/-- What begins like no other value is read as a number. -/
theorem read_eq_number (hnil : skipBlanks s ≠ []) (hstring : ∀ r, skipBlanks s ≠ '"' :: r)
    (hnull : ∀ r, skipBlanks s ≠ 'n' :: 'u' :: 'l' :: 'l' :: r)
    (htrue : ∀ r, skipBlanks s ≠ 't' :: 'r' :: 'u' :: 'e' :: r)
    (hfalse : ∀ r, skipBlanks s ≠ 'f' :: 'a' :: 'l' :: 's' :: 'e' :: r)
    (harray : ∀ r, skipBlanks s ≠ '[' :: r) (hobject : ∀ r, skipBlanks s ≠ '\x7b' :: r) :
    p.read (fuel + 1) s = p.number (skipBlanks s) := by
  rw [read]
  split
  next h => exact absurd h hnil
  next h => exact absurd h (hstring _)
  next h => exact absurd h (hnull _)
  next h => exact absurd h (htrue _)
  next h => exact absurd h (hfalse _)
  next h => exact absurd h (harray _)
  next h => exact absurd h (hobject _)
  next => rfl

theorem read_blanks_append (hw : Blanks w) (fuel : Nat) (s : List Char) :
    p.read fuel (w ++ s) = p.read fuel s := by
  cases fuel with
  | zero => rfl
  | succ fuel => rw [read, read, skipBlanks_append hw]

theorem read_skipBlanks (fuel : Nat) (s : List Char) :
    p.read fuel (skipBlanks s) = p.read fuel s := by
  cases fuel with
  | zero => rfl
  | succ fuel => rw [read, read, skipBlanks_skipBlanks]

theorem takes_blanks_append (hw : Blanks w) (h : Takes p.read t x) :
    Takes p.read (w ++ t) x := by
  intro fuel r hr hfuel
  rw [List.append_assoc, p.read_blanks_append hw]
  exact h fuel r hr (by rw [List.length_append] at hfuel; omega)

theorem takes_string (h : ∀ r, p.string (t ++ '"' :: r) = some (x, r)) :
    Takes p.read ('"' :: (t ++ ['"'])) x := by
  refine takes_of_succ (List.cons_ne_nil _ _) fun fuel r _ _ => ?_
  have hread := h r
  simp [read, skipBlanks, hread]

theorem takes_null : Takes p.read ['n', 'u', 'l', 'l'] p.null :=
  takes_of_succ (List.cons_ne_nil _ _) fun _ _ _ _ => by simp [read, skipBlanks]

theorem takes_true : Takes p.read ['t', 'r', 'u', 'e'] (p.bool true) :=
  takes_of_succ (List.cons_ne_nil _ _) fun _ _ _ _ => by simp [read, skipBlanks]

theorem takes_false : Takes p.read ['f', 'a', 'l', 's', 'e'] (p.bool false) :=
  takes_of_succ (List.cons_ne_nil _ _) fun _ _ _ _ => by simp [read, skipBlanks]

theorem takes_array (h : Takes p.array t x) : Takes p.read ('[' :: t) x := by
  refine takes_of_succ (List.cons_ne_nil _ _) fun fuel r hr hfuel => ?_
  have hread := h fuel r hr (by rw [List.length_cons] at hfuel; omega)
  simp [read, skipBlanks, hread]

theorem takes_object (h : Takes p.object t x) : Takes p.read ('\x7b' :: t) x := by
  refine takes_of_succ (List.cons_ne_nil _ _) fun fuel r hr hfuel => ?_
  have hread := h fuel r hr (by rw [List.length_cons] at hfuel; omega)
  simp [read, skipBlanks, hread]

theorem takes_number (hc : c = '-' ∨ c.isDigit = true)
    (h : ∀ r, EndsNumber r → p.number (c :: t ++ r) = some (x, r)) : Takes p.read (c :: t) x := by
  refine takes_of_succ (List.cons_ne_nil _ _) fun fuel r hr _ => ?_
  have hother := notMem_of_number hc
  have hread := h r hr
  rw [List.cons_append] at hread ⊢
  rw [read, skipBlanks_of_opensValue (opensValue_of_number hc)]
  split <;> simp_all

/-- What every reader of values depends on. -/
structure IsLocal (p : Kinds α) (fuel : Nat) : Prop where
  string : EndsAtQuote p.string
  number : EndsWithNumber p.number
  array : Local p.array fuel
  object : Local p.object fuel

theorem IsLocal.read (hp : p.IsLocal fuel) : Local p.read (fuel + 1) := by
  intro s x r h
  obtain ⟨w, hw, hs⟩ := exists_blanks s
  suffices hsuffices : ∃ t, skipBlanks s = t ++ r ∧ Takes p.read t x by
    obtain ⟨t, ht, htakes⟩ := hsuffices
    exact ⟨w ++ t, by rw [hs, ht, List.append_assoc], takes_blanks_append hw htakes⟩
  rw [Kinds.read] at h
  split at h
  next => cases h
  next s' hskip =>
    obtain ⟨t, rfl, ht⟩ := hp.string s' x r h
    exact ⟨'"' :: (t ++ ['"']), by simp [hskip], takes_string ht⟩
  next s' hskip =>
    cases h
    exact ⟨_, hskip, takes_null⟩
  next s' hskip =>
    cases h
    exact ⟨_, hskip, takes_true⟩
  next s' hskip =>
    cases h
    exact ⟨_, hskip, takes_false⟩
  next s' hskip =>
    obtain ⟨t, rfl, ht⟩ := hp.array s' x r h
    exact ⟨'[' :: t, hskip, takes_array ht⟩
  next s' hskip =>
    obtain ⟨t, rfl, ht⟩ := hp.object s' x r h
    exact ⟨'\x7b' :: t, hskip, takes_object ht⟩
  next =>
    obtain ⟨c, t, hskip, hc, ht⟩ := hp.number _ x r h
    exact ⟨c :: t, hskip, takes_number hc ht⟩

end Kinds

end Kinds

section Values

def valueReader (depth : Nat) : BoundedReader Json := fun fuel s => readValue fuel depth s

/-- A member whose value is read alike for every key. -/
def memberReader (depth : Nat) : BoundedReader (String × Json) :=
  readEntry readString fun _ => valueReader depth

def passValue (fuel : Nat) (s : List Char) : Option (Unit × List Char) :=
  (skipValue fuel s).map fun r => ((), r)

theorem readItems_eq (fuel depth : Nat) (s : List Char) :
    readItems fuel depth s = readList ']' (valueReader depth) fuel s := by
  induction fuel generalizing s with
  | zero => rfl
  | succ fuel ih =>
      rw [readItems, readList, valueReader]
      cases readValue fuel depth s with
      | none => rfl
      | some x =>
          obtain ⟨r, hskip, hmark⟩ | ⟨r, hskip, hmark⟩ | ⟨hclose, hcomma, hmark⟩ :=
            readMark_cases (.inl rfl) x.2
          · simp [hskip, hmark]
          · simp [hskip, hmark, ih]
          · simp [hmark]

theorem readMembers_eq (fuel depth : Nat) (s : List Char) :
    readMembers fuel depth s = readList '\x7d' (memberReader depth) fuel s := by
  induction fuel generalizing s with
  | zero => rfl
  | succ fuel ih =>
      rw [readMembers, readList]
      refine (match_key s _).trans ?_
      rw [memberReader, readEntry]
      cases readKey readString s with
      | none => rfl
      | some k =>
          simp only [Option.bind_some, valueReader]
          cases readValue fuel depth k.2 with
          | none => rfl
          | some v =>
              obtain ⟨r, hskip, hmark⟩ | ⟨r, hskip, hmark⟩ | ⟨hclose, hcomma, hmark⟩ :=
                readMark_cases (.inr rfl) v.2
              · simp [hskip, hmark]
              · simp [hskip, hmark, ih, memberReader]
              · simp [hmark]

def memberPasser : BoundedReader (Unit × Unit) := readEntry passString fun _ => passValue

theorem skipItems_eq (fuel : Nat) (s : List Char) :
    skipItems fuel s = (readList ']' passValue fuel s).map Prod.snd := by
  induction fuel generalizing s with
  | zero => rfl
  | succ fuel ih =>
      rw [skipItems, readList, passValue]
      cases skipValue fuel s with
      | none => rfl
      | some s' =>
          obtain ⟨r, hskip, hmark⟩ | ⟨r, hskip, hmark⟩ | ⟨hclose, hcomma, hmark⟩ :=
            readMark_cases (.inl rfl) s'
          · simp [hskip, hmark]
          · simp [hskip, hmark, ih, Function.comp_def]
          · simp [hmark]
            split <;> simp_all

theorem skipMembers_eq (fuel : Nat) (s : List Char) :
    skipMembers fuel s = (readList '\x7d' memberPasser fuel s).map Prod.snd := by
  induction fuel generalizing s with
  | zero => rfl
  | succ fuel ih =>
      rw [skipMembers, readList]
      refine (match_passKey s _).trans ?_
      rw [memberPasser, readEntry]
      cases readKey passString s with
      | none => rfl
      | some k =>
          simp only [Option.bind_some, passValue]
          cases skipValue fuel k.2 with
          | none => rfl
          | some s' =>
              obtain ⟨r, hskip, hmark⟩ | ⟨r, hskip, hmark⟩ | ⟨hclose, hcomma, hmark⟩ :=
                readMark_cases (.inr rfl) s'
              · simp [hskip, hmark]
              · simp [hskip, hmark, ih, memberPasser, Function.comp_def]
              · simp [hmark]
                split <;> simp_all

def readKinds (depth : Nat) : Kinds Json where
  string s := (readString s).map fun x => (.string x.1, x.2)
  number := readNumber
  null := .null
  bool := .bool
  array fuel s :=
    if depth = 0 then none
    else (readEnclosed ']' (valueReader (depth - 1)) fuel s).map fun x => (.array x.1, x.2)
  object fuel s :=
    if depth = 0 then none
    else (readEnclosed '\x7d' (memberReader (depth - 1)) fuel s).map fun x => (ofMembers x.1, x.2)

theorem readValue_eq (fuel depth : Nat) (s : List Char) :
    readValue fuel depth s = (readKinds depth).read fuel s := by
  cases fuel with
  | zero => rfl
  | succ fuel =>
    rw [readValue]
    split
    next h => simp only [Kinds.read, h]
    next h => simp only [Kinds.read, h, readKinds]
    next h => simp only [Kinds.read, h, readKinds]
    next h => simp only [Kinds.read, h, readKinds]
    next h => simp only [Kinds.read, h, readKinds]
    next s' h =>
      simp only [Kinds.read, h, readKinds]
      split
      · rfl
      · split
        next hclose => rw [readEnclosed_of_close fuel hclose]; rfl
        next hopen => rw [readEnclosed_of_ne fuel hopen, readItems_eq]
    next s' h =>
      simp only [Kinds.read, h, readKinds]
      split
      · rfl
      · split
        next hclose => rw [readEnclosed_of_close fuel hclose]; rfl
        next hopen => rw [readEnclosed_of_ne fuel hopen, readMembers_eq]
    next hnil hstring hnull htrue hfalse harray hobject =>
      rw [Kinds.read_eq_number hnil hstring hnull htrue hfalse harray hobject]
      rfl

def passKinds : Kinds Unit where
  string := passString
  number := passNumber
  null := ()
  bool _ := ()
  array fuel s := (readEnclosed ']' passValue fuel s).map fun x => ((), x.2)
  object fuel s := (readEnclosed '\x7d' memberPasser fuel s).map fun x => ((), x.2)

theorem passValue_eq (fuel : Nat) (s : List Char) : passValue fuel s = passKinds.read fuel s := by
  cases fuel with
  | zero => rfl
  | succ fuel =>
    rw [passValue, skipValue]
    split
    next h => simp only [Kinds.read, h, Option.map_none]
    next h => simp only [Kinds.read, h, passKinds, passString]
    next h => simp only [Kinds.read, h, passKinds, Option.map_some]
    next h => simp only [Kinds.read, h, passKinds, Option.map_some]
    next h => simp only [Kinds.read, h, passKinds, Option.map_some]
    next s' h =>
      simp only [Kinds.read, h, passKinds]
      split
      next hclose => rw [readEnclosed_of_close fuel hclose]; rfl
      next hopen => simp [readEnclosed_of_ne fuel hopen, skipItems_eq, Function.comp_def]
    next s' h =>
      simp only [Kinds.read, h, passKinds]
      split
      next hclose => rw [readEnclosed_of_close fuel hclose]; rfl
      next hopen => simp [readEnclosed_of_ne fuel hopen, skipMembers_eq, Function.comp_def]
    next hnil hstring hnull htrue hfalse harray hobject =>
      rw [Kinds.read_eq_number hnil hstring hnull htrue hfalse harray hobject]
      simp [passKinds, passNumber, Function.comp_def]

/-- What reading a value takes from a text does not depend on what comes after it. -/
theorem local_readValue (fuel depth : Nat) : Local (valueReader depth) fuel := by
  -- the values inside of an array or an object are read with smaller bounds, not all with the next
  -- smaller one
  induction fuel using Nat.strongRecOn generalizing depth with
  | ind fuel ih =>
      cases fuel with
      | zero => exact nofun
      | succ fuel =>
          have hvalue : ∀ k < fuel, Local (valueReader (depth - 1)) k :=
            fun k hk => ih k (Nat.lt_succ_of_lt hk) _
          have hitems : Local (readEnclosed ']' (valueReader (depth - 1))) fuel :=
            Local.readEnclosed (.inl rfl) hvalue
          have hmembers : Local (readEnclosed '\x7d' (memberReader (depth - 1))) fuel :=
            Local.readEnclosed (.inr rfl) fun k hk =>
              Local.readEntry endsAtQuote_readString fun _ => hvalue k hk
          have hread := Kinds.IsLocal.read (p := readKinds depth) {
            string := endsAtQuote_readString.map Json.string
            number := endsWithNumber_readNumber
            array := (hitems.map Json.array).unless (depth = 0)
            object := (hmembers.map ofMembers).unless (depth = 0) }
          unfold valueReader
          simp only [readValue_eq]
          exact hread

/-- What passing over a value takes from a text does not depend on what comes after it. -/
theorem local_passValue (fuel : Nat) : Local passValue fuel := by
  induction fuel using Nat.strongRecOn with
  | ind fuel ih =>
      cases fuel with
      | zero => exact nofun
      | succ fuel =>
          have hvalue : ∀ k < fuel, Local passValue k := fun k hk => ih k (Nat.lt_succ_of_lt hk)
          have hread := Kinds.IsLocal.read (p := passKinds) {
            string := endsAtQuote_passString
            number := endsWithNumber_passNumber
            array := (Local.readEnclosed (.inl rfl) hvalue).map fun _ => ()
            object := (Local.readEnclosed (.inr rfl) fun k hk =>
              Local.readEntry endsAtQuote_passString fun _ => hvalue k hk).map fun _ => () }
          have heq : passValue = passKinds.read := funext fun k => funext (passValue_eq k)
          rw [heq]
          exact hread

/-- Items of arrays are values. -/
theorem readsPart_valueReader (depth : Nat) : ReadsPart ']' (valueReader depth) where
  readsLocally fuel := local_readValue fuel depth
  skips fuel s := by
    simp only [valueReader, readValue_eq, Kinds.read_skipBlanks]
  rejects fuel r := by
    cases fuel <;> simp [valueReader, readValue, skipBlanks, readNumber, scanNumber, scanSign,
      scanWhole, spanDigits, Text.digitValue?]

end Values

end LightServer.Json
