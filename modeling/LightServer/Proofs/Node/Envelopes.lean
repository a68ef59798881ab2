import LightServer.Node.Exchange
import LightServer.Proofs.Json.Extent

/-!
# Envelopes

An envelope is an object whose members `result` and `error` come once at most, or an array
of at most these two; the other members of the object may have any values. What a response
says is read from the envelope that its body is, whatever its status. Only where the body is
no envelope does the status tell which error this is.
-/

namespace LightServer.Node

open LightServer.Json

namespace ReplyEnvelope

variable {fuel : Nat} {key : String} {m m' : Members} {s r : List Char}

def Known (key : String) : Prop := key = "result" ∨ key = "error"

instance (key : String) : Decidable (Known key) :=
  inferInstanceAs (Decidable (key = "result" ∨ key = "error"))

def partReader (key : String) : BoundedReader (Option Json) := fun fuel s =>
  if Known key then (valueReader memberDepth fuel s).map fun x => (some x.1, x.2)
  else (passValue fuel s).map fun x => (none, x.2)

theorem local_partReader (key : String) (fuel : Nat) : Local (partReader key) fuel := by
  by_cases hkey : Known key
  · simpa only [Local, Takes, partReader, if_pos hkey] using
      (local_readValue fuel memberDepth).map some
  · simpa only [Local, Takes, partReader, if_neg hkey] using
      (local_passValue fuel).map fun _ => none

def memberReader : BoundedReader (String × Option Json) :=
  Json.readEntry readString partReader

theorem memberReader_apply (fuel : Nat) (s : List Char) :
    memberReader fuel s = (readKey readString s).bind fun k =>
      (partReader k.1 fuel k.2).map fun x => ((k.1, x.1), x.2) := rfl

theorem readsPart_memberReader : ReadsPart '\x7d' memberReader :=
  readsPart_readEntry endsAtQuote_readString local_partReader

def named (name : String) (es : List (String × Option Json)) : List Json :=
  es.filterMap fun e => if e.1 = name then e.2 else none

theorem named_cons (name : String) (e : String × Option Json) (es : List (String × Option Json)) :
    named name (e :: es) = named name [e] ++ named name es :=
  List.filterMap_append (l := [e])

/-- The members after others have been added to them. Each holds one value at most, so a name that
comes twice cannot be added. -/
def Adds (m : Members) (es : List (String × Option Json)) (m' : Members) : Prop :=
  m'.result.toList = m.result.toList ++ named "result" es ∧
    m'.error.toList = m.error.toList ++ named "error" es

theorem toList_eq_toList_append_iff {o o' : Option Json} {vs : List Json} :
    o'.toList = o.toList ++ vs ↔ vs = [] ∧ o' = o ∨ ∃ v, vs = [v] ∧ o = none ∧ o' = some v := by
  cases o <;> cases o' <;> cases vs <;> simp [eq_comm, and_comm]

theorem adds_nil_iff : Adds m [] m' ↔ m = m' := by
  obtain ⟨result, error⟩ := m
  obtain ⟨result', error'⟩ := m'
  simp only [Adds, named, List.filterMap_nil, toList_eq_toList_append_iff]
  simp [eq_comm]

/-- A member is added to those that have been read. -/
theorem readMember_eq_some_iff : readMember fuel key m s = some (m', r) ↔
    ∃ v, partReader key fuel s = some (v, r) ∧ Adds m [(key, v)] m' := by
  obtain ⟨result, error⟩ := m
  obtain ⟨result', error'⟩ := m'
  unfold readMember partReader valueReader passValue Adds
  simp only [named, toList_eq_toList_append_iff]
  by_cases hresult : key = "result"
  · subst hresult
    cases result with
    | none => simp [Known, @eq_comm _ _ result', @eq_comm _ _ error']
    | some v => simp [Known]
  · by_cases herror : key = "error"
    · subst herror
      cases error with
      | none => simp [Known, @eq_comm _ _ result', @eq_comm _ _ error', and_comm]
      | some v => simp [Known]
    · simp [Known, hresult, herror, @eq_comm _ _ result', @eq_comm _ _ error']

theorem exists_toList_eq {o : Option Json} {vs ws : List Json} (h : o.toList = vs ++ ws) :
    ∃ o' : Option Json, o'.toList = vs := by
  match vs, h with
  | [], _ => exact ⟨none, rfl⟩
  | [v], _ => exact ⟨some v, rfl⟩
  | _ :: _ :: _, h => cases o <;> simp at h

/-- Members are added one after the other. -/
theorem adds_cons_iff {e : String × Option Json} :
    Adds m (e :: es) m' ↔ ∃ m₁, Adds m [e] m₁ ∧ Adds m₁ es m' := by
  unfold Adds
  rw [named_cons, named_cons "error"]
  constructor
  · rintro ⟨hresult, herror⟩
    rw [← List.append_assoc] at hresult herror
    obtain ⟨result, hresult₁⟩ := exists_toList_eq hresult
    obtain ⟨error, herror₁⟩ := exists_toList_eq herror
    exact ⟨⟨result, error⟩, ⟨hresult₁, herror₁⟩, by rw [hresult, hresult₁], by rw [herror, herror₁]⟩
  · rintro ⟨m₁, ⟨hresult, herror⟩, hresult', herror'⟩
    rw [hresult', herror', hresult, herror, List.append_assoc, List.append_assoc]
    exact ⟨rfl, rfl⟩

theorem readMembers_succ (fuel : Nat) (m : Members) (s : List Char) :
    readMembers (fuel + 1) m s = (readKey readString s).bind fun k =>
      (readMember fuel k.1 m k.2).bind fun x => (readMark '\x7d' x.2).bind fun mark =>
        if mark.1 then some (x.1, mark.2) else readMembers fuel x.1 mark.2 := by
  rw [readMembers]
  refine (match_key s _).trans ?_
  cases readKey readString s with
  | none => rfl
  | some k =>
      simp only [Option.bind_some]
      cases readMember fuel k.1 m k.2 with
      | none => rfl
      | some x =>
          obtain ⟨r, hskip, hmark⟩ | ⟨r, hskip, hmark⟩ | ⟨hclose, hcomma, hmark⟩ :=
            readMark_cases (.inr rfl) x.2
          · simp [hskip, hmark]
          · simp [hskip, hmark]
          · simp [hmark]

/-- Reading members with others at hand is reading all of them and adding them. -/
theorem readMembers_eq_some_iff : readMembers fuel m s = some (m', r) ↔
    ∃ es, readList '\x7d' memberReader fuel s = some (es, r) ∧ Adds m es m' := by
  induction fuel generalizing m s with
  | zero => exact iff_of_false nofun (by rintro ⟨es, ⟨⟩, -⟩)
  | succ fuel ih =>
      simp only [readMembers_succ, readList, memberReader_apply, Option.bind_eq_some_iff,
        Option.map_eq_some_iff]
      constructor
      · rintro ⟨⟨key, s₁⟩, hkey, ⟨m₁, s₂⟩, hmember, ⟨last, s₃⟩, hmark, h⟩
        obtain ⟨v, hv, hadd⟩ := readMember_eq_some_iff.mp hmember
        have hread : ∃ k, readKey readString s = some k ∧ ∃ x, partReader k.1 fuel k.2 = some x ∧
            ((k.1, x.1), x.2) = ((key, v), s₂) := ⟨_, hkey, _, hv, rfl⟩
        cases last with
        | true =>
            cases h
            exact ⟨[(key, v)], ⟨_, hread, _, hmark, rfl⟩, hadd⟩
        | false =>
            obtain ⟨es, hes, hadds⟩ := ih.mp h
            exact ⟨(key, v) :: es, ⟨_, hread, _, hmark, Option.map_eq_some_iff.mpr ⟨_, hes, rfl⟩⟩,
              adds_cons_iff.mpr ⟨m₁, hadd, hadds⟩⟩
      · rintro ⟨es, ⟨x, ⟨⟨key, s₁⟩, hkey, ⟨v, s₂⟩, hv, rfl⟩, ⟨last, s₃⟩, hmark, h⟩, hadds⟩
        cases last with
        | true =>
            cases h
            exact ⟨_, hkey, _, readMember_eq_some_iff.mpr ⟨v, hv, hadds⟩, _, hmark, rfl⟩
        | false =>
            simp only [Bool.false_eq_true, if_false, Option.map_eq_some_iff] at h
            obtain ⟨⟨es', r'⟩, hes, h⟩ := h
            cases h
            obtain ⟨m₁, hadd, hadds⟩ := adds_cons_iff.mp hadds
            exact ⟨_, hkey, _, readMember_eq_some_iff.mpr ⟨v, hv, hadd⟩, _, hmark,
              ih.mpr ⟨es', hes, hadds⟩⟩

theorem match_members_eq_some_iff :
    (match skipBlanks s with
      | '\x7d' :: s => some ({}, s)
      | s => readMembers fuel {} s) = some (m, r) ↔
      ∃ es, readEnclosed '\x7d' memberReader fuel s = some (es, r) ∧ Adds {} es m := by
  split
  next hclose =>
    simp [readEnclosed_of_close fuel hclose, adds_nil_iff, and_comm]
  next hopen =>
    rw [readEnclosed_of_ne fuel hopen, readMembers_eq_some_iff]

theorem match_items_eq_some_iff :
    (match skipBlanks s with
      | ']' :: s => some ({}, s)
      | s =>
          match readItems fuel memberDepth s with
          | none => none
          | some (vs, s) => (ofItems vs).map fun m => (m, s)) = some (m, r) ↔
      ∃ vs, readEnclosed ']' (valueReader memberDepth) fuel s = some (vs, r) ∧
        ofItems vs = some m := by
  split
  next hclose =>
    simp [readEnclosed_of_close fuel hclose, ofItems, and_comm]
  next hopen =>
    rw [readEnclosed_of_ne fuel hopen, readItems_eq]
    cases readList ']' (valueReader memberDepth) fuel (skipBlanks s) with
    | none => simp
    | some x =>
        obtain ⟨vs, r'⟩ := x
        simp [and_comm]

/-- Reading an envelope is reading the parts that stand in its brackets. -/
theorem readFrom_eq_some_iff : readFrom fuel s = some (m, r) ↔
    (∃ s' es, skipBlanks s = '\x7b' :: s' ∧
      readEnclosed '\x7d' memberReader fuel s' = some (es, r) ∧ Adds {} es m) ∨
    ∃ s' vs, skipBlanks s = '[' :: s' ∧
      readEnclosed ']' (valueReader memberDepth) fuel s' = some (vs, r) ∧ ofItems vs = some m := by
  unfold readFrom
  split
  next s' hskip =>
    rw [hskip]
    refine match_members_eq_some_iff.trans ⟨fun ⟨es, h⟩ => .inl ⟨s', es, rfl, h⟩, ?_⟩
    rintro (⟨_, es, ⟨⟩, h⟩ | ⟨_, _, h, -⟩)
    · exact ⟨es, h⟩
    · cases h
  next s' hskip =>
    rw [hskip]
    refine match_items_eq_some_iff.trans ⟨fun ⟨vs, h⟩ => .inr ⟨s', vs, rfl, h⟩, ?_⟩
    rintro (⟨_, _, h, -⟩ | ⟨_, vs, ⟨⟩, h⟩)
    · cases h
    · exact ⟨vs, h⟩
  next hbrace hbracket =>
    refine iff_of_false nofun ?_
    rintro (⟨s', es, hskip, -⟩ | ⟨s', vs, hskip, -⟩)
    · exact hbrace s' hskip
    · exact hbracket s' hskip

/-- The text is the value of a member with the key. The value of a member that is known is kept,
and that of another one is none. -/
def IsValue (key : String) (t : List Char) : Option Json → Prop
  | some v => Known key ∧ Consists (valueReader memberDepth) t v
  | none => ¬ Known key ∧ Consists passValue t ()

def IsMember (t : List Char) (e : String × Option Json) : Prop :=
  ∃ key value, t = key ++ value ∧ IsKey readString key e.1 ∧ IsValue e.1 value e.2

theorem takesPadded_partReader_iff {t : List Char} {v : Option Json} :
    TakesPadded (partReader key) t v ↔ IsValue key t v := by
  rw [← consists_iff (local_partReader key)]
  unfold Consists partReader
  by_cases hkey : Known key
  · cases v <;> simp [IsValue, hkey, Consists]
  · cases v <;> simp [IsValue, hkey, Consists, Unique.exists_iff]

theorem takesPadded_memberReader_iff {t : List Char} {e : String × Option Json} :
    TakesPadded memberReader t e ↔ IsMember t e := by
  simp only [memberReader, takesPadded_readEntry_iff endsAtQuote_readString local_partReader,
    takesPadded_partReader_iff, IsMember]

def IsEnvelope (s : List Char) (m : Members) : Prop :=
  (∃ es, IsEnclosed '\x7b' '\x7d' IsMember s es ∧
    named "result" es = m.result.toList ∧ named "error" es = m.error.toList) ∨
  ∃ vs, IsEnclosed '[' ']' (Consists (valueReader memberDepth)) s vs ∧ ofItems vs = some m

theorem isEnvelope_iff (hfuel : 2 * s.length ≤ fuel) : IsEnvelope s m ↔
    ∃ back, readFrom fuel s = some (m, back) ∧ Blanks back := by
  have hbrace : NotBlank '\x7b' := by
    unfold NotBlank
    decide
  have hbracket : NotBlank '[' := by
    unfold NotBlank
    decide
  have hmember : IsMember = TakesPadded memberReader :=
    funext fun t => funext fun e => (propext takesPadded_memberReader_iff).symm
  have hvalue : Consists (valueReader memberDepth) = TakesPadded (valueReader memberDepth) :=
    funext fun t => funext fun v => propext (consists_iff fun k => local_readValue k memberDepth)
  have hnone {es : List (String × Option Json)} : Adds {} es m ↔
      named "result" es = m.result.toList ∧ named "error" es = m.error.toList := by
    simp [Adds, eq_comm]
  simp only [IsEnvelope, hmember, hvalue, readFrom_eq_some_iff, hnone,
    readsPart_memberReader.isEnclosed_iff hbrace (.inr rfl) hfuel,
    (readsPart_valueReader memberDepth).isEnclosed_iff hbracket (.inl rfl) hfuel]
  constructor
  · rintro (⟨es, ⟨s', back, hskip, hread, hback⟩, hes⟩ | ⟨vs, ⟨s', back, hskip, hread, hback⟩, hvs⟩)
    · exact ⟨back, .inl ⟨s', es, hskip, hread, hes⟩, hback⟩
    · exact ⟨back, .inr ⟨s', vs, hskip, hread, hvs⟩, hback⟩
  · rintro ⟨back, ⟨s', es, hskip, hread, hes⟩ | ⟨s', vs, hskip, hread, hvs⟩, hback⟩
    · exact .inl ⟨es, ⟨s', back, hskip, hread, hback⟩, hes⟩
    · exact .inr ⟨vs, ⟨s', back, hskip, hread, hback⟩, hvs⟩

/-- What is read as an envelope is what is written as one. -/
theorem ofText?_eq_some_iff {text : String} {e : ReplyEnvelope} :
    ofText? text = some e ↔ ∃ m, IsEnvelope text.toList m ∧ ofMembers m = e := by
  have hread {m : Members} : IsEnvelope text.toList m ↔
      ∃ back, readFrom (fuelFor text.toList) text.toList = some (m, back) ∧ Blanks back :=
    isEnvelope_iff (Nat.le_add_right _ 2)
  simp only [hread]
  unfold ofText?
  cases readFrom (fuelFor text.toList) text.toList with
  | none => simp
  | some x =>
      obtain ⟨m, back⟩ := x
      simp only [isEmpty_skipBlanks_iff, Option.ite_none_right_eq_some, Option.some.injEq,
        Prod.mk.injEq]
      constructor
      · rintro ⟨hback, rfl⟩
        exact ⟨m, ⟨back, ⟨rfl, rfl⟩, hback⟩, rfl⟩
      · rintro ⟨_, ⟨_, ⟨rfl, rfl⟩, hback⟩, rfl⟩
        exact ⟨hback, rfl⟩

theorem ofText?_eq_none_iff {text : String} :
    ofText? text = none ↔ ∀ m, ¬ IsEnvelope text.toList m := by
  constructor
  · intro hnone m hm
    have hsome := ofText?_eq_some_iff.mpr ⟨m, hm, rfl⟩
    rw [hnone] at hsome
    cases hsome
  · intro hall
    refine Option.eq_none_iff_forall_ne_some.mpr fun e he => ?_
    obtain ⟨m, hm, -⟩ := ofText?_eq_some_iff.mp he
    exact hall m hm

def Members.errorValue (m : Members) : Json := m.error.getD .null

def Members.resultValue (m : Members) : Json := m.result.getD .null

theorem reply_ofMembers_of_eq_null (h : m.errorValue = .null) :
    (ofMembers m).reply = .ok m.resultValue := by
  obtain ⟨result, error⟩ := m
  have herror : error.bind present = none := by
    cases error with
    | none => rfl
    | some v =>
        have hv : v = .null := h
        rw [hv]
        rfl
  have hresult : (result.bind present).getD .null = result.getD .null := by
    cases result with
    | none => rfl
    | some v => cases v <;> rfl
  simp only [ofMembers, ReplyEnvelope.reply, herror, hresult, Members.resultValue]

theorem reply_ofMembers_of_ne_null (h : m.errorValue ≠ .null) :
    (ofMembers m).reply = .error (.failure (.ofJson m.errorValue)) := by
  obtain ⟨result, error⟩ := m
  cases error with
  | none => exact absurd rfl h
  | some v =>
      have hv : present v = some v := by
        cases v with
        | null => exact absurd rfl h
        | _ => rfl
      simp only [ofMembers, ReplyEnvelope.reply, Option.bind_some, hv, Members.errorValue,
        Option.getD_some]

end ReplyEnvelope

section Response

variable {method body : String} {status : Nat} {v : Json} {f : Failure} {m : ReplyEnvelope.Members}

open ReplyEnvelope

theorem readResponse_of_isEnvelope (hm : IsEnvelope body.toList m) :
    readResponse method status body = (ofMembers m).reply := by
  rw [readResponse, ofText?_eq_some_iff.mpr ⟨m, hm, rfl⟩]

theorem readResponse_of_not_isEnvelope (hnone : ∀ m, ¬ IsEnvelope body.toList m) :
    readResponse method status body =
      if Http.IsSuccess status then .error (.decode (method ++ ": <json error>"))
      else .error (.transport ("HTTP " ++ Http.statusText status ++ " from node")) := by
  rw [readResponse, ofText?_eq_none_iff.mpr hnone]

/-- What a response says comes from an envelope, or is an error that is no failure. -/
theorem readResponse_cases (method : String) (status : Nat) (body : String) :
    (∃ m, IsEnvelope body.toList m ∧ m.errorValue = .null ∧
      readResponse method status body = .ok m.resultValue) ∨
    (∃ m, IsEnvelope body.toList m ∧ m.errorValue ≠ .null ∧
      readResponse method status body = .error (.failure (.ofJson m.errorValue))) ∨
    ∃ e : Error, readResponse method status body = .error e ∧ ∀ f, e ≠ .failure f := by
  by_cases henvelope : ∃ m, IsEnvelope body.toList m
  · obtain ⟨m, hm⟩ := henvelope
    rw [readResponse_of_isEnvelope hm]
    by_cases herror : m.errorValue = .null
    · exact .inl ⟨m, hm, herror, reply_ofMembers_of_eq_null herror⟩
    · exact .inr (.inl ⟨m, hm, herror, reply_ofMembers_of_ne_null herror⟩)
  · rw [readResponse_of_not_isEnvelope (not_exists.mp henvelope)]
    refine .inr (.inr ?_)
    split
    · exact ⟨_, rfl, fun _ => Error.noConfusion⟩
    · exact ⟨_, rfl, fun _ => Error.noConfusion⟩

/-- A response makes a call succeed exactly where its body is an envelope without an error. -/
theorem readResponse_eq_ok_iff : readResponse method status body = .ok v ↔
    ∃ m, IsEnvelope body.toList m ∧ m.errorValue = .null ∧ v = m.resultValue := by
  constructor
  · intro h
    obtain ⟨m, hm, herror, hread⟩ | ⟨m, -, -, hread⟩ | ⟨e, hread, -⟩ :=
      readResponse_cases method status body
    · rw [h] at hread
      exact ⟨m, hm, herror, Except.ok.inj hread⟩
    · rw [h] at hread
      cases hread
    · rw [h] at hread
      cases hread
  · rintro ⟨m, hm, herror, rfl⟩
    rw [readResponse_of_isEnvelope hm]
    exact reply_ofMembers_of_eq_null herror

/-- A response makes a call fail with a failure exactly where its body is an envelope whose error
tells of this. -/
theorem readResponse_eq_failure_iff : readResponse method status body = .error (.failure f) ↔
    ∃ m, IsEnvelope body.toList m ∧ m.errorValue ≠ .null ∧ .ofJson m.errorValue = f := by
  constructor
  · intro h
    obtain ⟨m, -, -, hread⟩ | ⟨m, hm, herror, hread⟩ | ⟨e, hread, hother⟩ :=
      readResponse_cases method status body
    · rw [h] at hread
      cases hread
    · rw [h] at hread
      exact ⟨m, hm, herror, (Error.failure.inj (Except.error.inj hread)).symm⟩
    · rw [h] at hread
      exact absurd (Except.error.inj hread).symm (hother f)
  · rintro ⟨m, hm, herror, rfl⟩
    rw [readResponse_of_isEnvelope hm]
    exact reply_ofMembers_of_ne_null herror

end Response

end LightServer.Node
