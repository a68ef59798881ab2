import LightServer.Proofs.Ingest.SoleWriter
import LightServer.Proofs.Json.Numbers
import LightServer.Proofs.Node.Envelopes
import LightServer.Proofs.Node.FailureText

/-!
# Blocks that are not mined yet

The node says that a height is not mined yet by a failure with a certain code, either
as the code of an error object or in front of a colon in an error text. Nothing else
that it replies is taken for this: an error of any other form is written as JSON text
first, and such text never has a code in front of its first colon. So an ingestor only
comes to rest where the node said so.
-/

namespace LightServer

namespace Node

variable {c : Char} {s l r : List Char} {code : Int} {raw : String} {v : Json}

theorem TellsCode.head (h : TellsCode (c :: s) code) :
    Text.isBlank c = true ∨ c.isDigit = true ∨ c = '+' ∨ c = '-' := by
  obtain ⟨l, literal, r, message, htext, hblank, hliteral⟩ := h
  cases l with
  | cons c' l =>
      rw [List.head_eq_of_cons_eq htext]
      exact .inl (hblank c' (List.mem_append_left _ List.mem_cons_self))
  | nil =>
      cases hliteral with
      | bare h =>
          obtain ⟨c', s', rfl⟩ := List.exists_cons_of_ne_nil h.ne_nil
          rw [List.head_eq_of_cons_eq htext]
          exact .inr (.inl (h.isDigit c' List.mem_cons_self))
      | plus h => exact .inr (.inr (.inl (List.head_eq_of_cons_eq htext)))
      | minus h => exact .inr (.inr (.inr (List.head_eq_of_cons_eq htext)))

theorem TellsCode.colon_mem (h : TellsCode s code) : ':' ∈ s := by
  obtain ⟨l, literal, r, message, rfl, -⟩ := h
  exact List.mem_append_right _ List.mem_cons_self

theorem colon_not_mem_text {n : Json.Numeral} (hn : n.WellFormed) : ':' ∉ n.text := by
  intro h
  obtain h | h := Json.Numeral.mem_text hn h
  · cases h
  · revert h
    decide

/-- The text of a value that is no string never tells a code. -/
theorem not_tellsCode_write (hv : ∀ text, v ≠ .string text) : ¬ TellsCode v.write code := by
  have hopening {c : Char} {s : List Char} (hc : (Text.isBlank c || c.isDigit || c == '+' ||
      c == '-') = false) : ¬ TellsCode (c :: s) code := by
    simp only [Bool.or_eq_false_iff, beq_eq_false_iff_ne] at hc
    obtain ⟨⟨⟨hblank, hdigit⟩, hplus⟩, hminus⟩ := hc
    intro h
    obtain hhead | hhead | hhead | hhead := h.head
    · exact absurd (hblank.symm.trans hhead) Bool.false_ne_true
    · exact absurd (hdigit.symm.trans hhead) Bool.false_ne_true
    · exact hplus hhead
    · exact hminus hhead
  cases v with
  | null => exact hopening rfl
  | bool b => cases b <;> exact hopening rfl
  | integer n =>
      intro h
      rw [Json.write, ← Json.Numeral.text_ofInt] at h
      exact colon_not_mem_text (Json.Numeral.wellFormed_ofInt n) h.colon_mem
  | float x =>
      obtain ⟨n, hn, htext, -⟩ := Shortest.exists_numeral_json x
      intro h
      rw [Json.write, htext] at h
      exact colon_not_mem_text hn h.colon_mem
  | string text => exact absurd rfl (hv text)
  | array xs =>
      rw [Json.write]
      exact hopening rfl
  | object ms =>
      rw [Json.write]
      exact hopening rfl

/-- The error is an object with the code for a height that is not mined yet, or a text that
tells this code. -/
def SaysNotMined (v : Json) : Prop :=
  (∃ ms, v = .object ms ∧ Json.lookup "code" ms = some (.integer (-8))) ∨
    ∃ text, v = .string text ∧ TellsCode text.toList (-8)

theorem errorCode?_eq_some_iff : errorCode? v = some code ↔
    (∃ ms, v = .object ms ∧ Json.lookup "code" ms = some (.integer code)) ∧
      code ≤ Text.maxInt64 := by
  unfold errorCode?
  split
  next n hn =>
    cases v with
    | object ms =>
        have hlookup : Json.lookup "code" ms = some (.integer n) := hn
        simp only [Option.ite_none_right_eq_some, Option.some.injEq, Json.object.injEq]
        constructor
        · rintro ⟨hle, rfl⟩
          exact ⟨⟨ms, rfl, hlookup⟩, hle⟩
        · rintro ⟨⟨_, rfl, h⟩, hle⟩
          rw [hlookup] at h
          cases h
          exact ⟨hle, rfl⟩
    | _ => cases hn
  next hnone =>
    refine iff_of_false nofun ?_
    rintro ⟨⟨ms, rfl, h⟩, -⟩
    exact hnone code h

/-- The error is an object with the code, or a text that tells the code. -/
def SaysCode (code : Int) (v : Json) : Prop :=
  (∃ ms, v = .object ms ∧ Json.lookup "code" ms = some (.integer code)) ∨
    ∃ text, v = .string text ∧ TellsCode text.toList code

/-- A failure has a code other than the catch-all one only from an error that says so. -/
theorem Failure.code_ofJson_eq_iff (hcode : code ≠ miscellaneous) (hrange : Int64 code) :
    (ofJson v).code = code ↔ SaysCode code v := by
  have htext (raw : String) : (ofText raw).code = code ↔ TellsCode raw.toList code := by
    rw [code_ofText_eq_iff hcode]
    exact and_iff_left hrange
  by_cases hstring : ∃ text, v = .string text
  · obtain ⟨text, rfl⟩ := hstring
    rw [ofJson, htext]
    constructor
    · exact fun h => .inr ⟨text, rfl, h⟩
    · rintro (⟨_, h, _⟩ | ⟨_, h, htells⟩)
      · cases h
      · cases h
        exact htells
  · have hreports : SaysCode code v ↔ errorCode? v = some code := by
      rw [errorCode?_eq_some_iff, and_iff_left hrange.2]
      exact or_iff_left fun ⟨text, h, _⟩ => hstring ⟨text, h⟩
    rw [hreports]
    cases herror : errorCode? v with
    | some n =>
        have hofJson : ofJson v = ⟨n, errorMessage v⟩ := by
          cases v with
          | string text => exact absurd ⟨text, rfl⟩ hstring
          | _ => simp only [ofJson, herror]
        simp [hofJson]
    | none =>
        have hofJson : ofJson v = .ofText v.compact := by
          cases v with
          | string text => exact absurd ⟨text, rfl⟩ hstring
          | _ => simp only [ofJson, herror]
        refine iff_of_false (fun h => ?_) (by rintro ⟨⟩)
        rw [hofJson] at h
        have htells := (htext v.compact).mp h
        rw [Json.compact, String.toList_ofList] at htells
        exact not_tellsCode_write (fun text h => hstring ⟨text, h⟩) htells

def ReportsCode (code : Int) (body : String) : Prop :=
  ∃ m, ReplyEnvelope.IsEnvelope body.toList m ∧ SaysCode code m.errorValue

def ReportsNotMined (body : String) : Prop :=
  ∃ m, ReplyEnvelope.IsEnvelope body.toList m ∧ SaysNotMined m.errorValue

def ReportsResult (text body : String) : Prop :=
  ∃ m, ReplyEnvelope.IsEnvelope body.toList m ∧ m.errorValue = .null ∧
    m.resultValue = .string text

/-- The body is an envelope without an error, whose result is the bytes of a block at the
height. -/
def ReportsBlock (height : Nat) (b : CompactBlock) (body : String) : Prop :=
  ∃ text raw, ReportsResult text body ∧ Hex.decode text = .ok raw ∧
    Wire.parse raw (UInt64.ofNat height) = .ok b

/-- The exchange brings a response with the status and the body. With some of the status codes
there is none. -/
def Exchange.Delivers (url : String) (x : Exchange) (status : Nat) (body : String) : Prop :=
  addressFault? url = none ∧ ∃ sent, x = complete status sent ∧ ¬ Http.IsInterim status ∧
    (if Http.HasNoBody status then "" else sent) = body

section Exchange

variable {url method body : String} {x : Exchange} {status height : Nat} {b : CompactBlock}
  {f : Failure} {reply : Reply}

theorem readResponse_eq_ok_string_iff {text : String} :
    readResponse method status body = .ok (.string text) ↔ ReportsResult text body := by
  rw [readResponse_eq_ok_iff, ReportsResult]
  simp only [@eq_comm _ (Json.string text)]

theorem SaysCode.ne_null (h : SaysCode code v) : v ≠ .null := by
  rintro rfl
  obtain ⟨_, h, -⟩ | ⟨_, h, -⟩ := h <;> cases h

/-- Whatever is no error on the way is read from a response that was delivered. -/
theorem reply_eq_iff_of_ne_transport (h : ∀ text, reply ≠ .error (.transport text)) :
    x.reply url method = reply ↔
      ∃ status body, x.Delivers url status body ∧ readResponse method status body = reply := by
  unfold Exchange.reply Exchange.Delivers
  cases haddress : addressFault? url with
  | some text => exact iff_of_false (fun h' => h text h'.symm) (by simp)
  | none =>
      cases x with
      | refused => exact iff_of_false (fun h' => h _ h'.symm) (by simp)
      | broken => exact iff_of_false (fun h' => h _ h'.symm) (by simp)
      | complete status sent =>
          simp only [true_and, Exchange.complete.injEq]
          by_cases hinterim : Http.IsInterim status
          · rw [if_pos hinterim]
            refine iff_of_false (fun h' => h _ h'.symm) ?_
            rintro ⟨_, _, ⟨_, ⟨rfl, rfl⟩, hfinal, -⟩, -⟩
            exact hfinal hinterim
          · rw [if_neg hinterim]
            constructor
            · exact fun h' => ⟨status, _, ⟨sent, ⟨rfl, rfl⟩, hinterim, rfl⟩, h'⟩
            · rintro ⟨_, _, ⟨_, ⟨rfl, rfl⟩, -, rfl⟩, h'⟩
              exact h'

/-- There is a failure with a code other than the catch-all one exactly where a response reports the
code. -/
theorem exists_reply_eq_failure_iff (hcode : code ≠ Failure.miscellaneous) (hrange : Int64 code) :
    (∃ message, x.reply url method = .error (.failure ⟨code, message⟩)) ↔
      ∃ status body, x.Delivers url status body ∧ ReportsCode code body := by
  constructor
  · rintro ⟨message, hreply⟩
    obtain ⟨status, body, hdelivers, hread⟩ :=
      (reply_eq_iff_of_ne_transport fun _ => by simp).mp hreply
    obtain ⟨m, hm, -, hfailure⟩ := readResponse_eq_failure_iff.mp hread
    have hsaid := (Failure.code_ofJson_eq_iff hcode hrange).mp (congrArg Failure.code hfailure)
    exact ⟨status, body, hdelivers, m, hm, hsaid⟩
  · rintro ⟨status, body, hdelivers, m, hm, hsaid⟩
    have hfailure : Failure.ofJson m.errorValue = ⟨code, (Failure.ofJson m.errorValue).message⟩ := by
      rw [← (Failure.code_ofJson_eq_iff hcode hrange).mpr hsaid]
    refine ⟨(Failure.ofJson m.errorValue).message,
      (reply_eq_iff_of_ne_transport fun _ => by simp).mpr ⟨status, body, hdelivers, ?_⟩⟩
    exact readResponse_eq_failure_iff.mpr ⟨m, hm, hsaid.ne_null, hfailure⟩

namespace Query

theorem read_block_eq_none_iff : (block height).read reply = .ok none ↔
    ∃ f : Failure, reply = .error (.failure f) ∧ f.NotYetAvailable := by
  cases reply with
  | ok v =>
      refine iff_of_false (fun h => ?_) (by rintro ⟨_, ⟨⟩, _⟩)
      simp only [block] at h
      cases hread : readBlock height v <;> rw [hread] at h <;> cases h
  | error e =>
      simp only [block, Except.error.injEq]
      cases e with
      | failure f =>
          simp only [Error.failure.injEq, exists_eq_left', Error.NotYetAvailable]
          by_cases hf : f.NotYetAvailable <;> simp [hf]
      | _ => exact iff_of_false (by rintro ⟨⟩) (by rintro ⟨_, ⟨⟩, _⟩)

/-- There is no block exactly where a response reports that its height is not mined yet. -/
theorem read_block_reply_eq_none_iff :
    (block height).read (x.reply url method) = .ok none ↔
      ∃ status body, x.Delivers url status body ∧ ReportsNotMined body := by
  have hrange : Int64 Failure.invalidParameter := by
    unfold Int64
    decide
  have hfailure : (∃ f : Failure, x.reply url method = .error (.failure f) ∧ f.NotYetAvailable) ↔
      ∃ message, x.reply url method = .error (.failure ⟨Failure.invalidParameter, message⟩) := by
    constructor
    · rintro ⟨⟨code, message⟩, hreply, rfl⟩
      exact ⟨message, hreply⟩
    · rintro ⟨message, hreply⟩
      exact ⟨_, hreply, rfl⟩
  rw [read_block_eq_none_iff, hfailure]
  exact exists_reply_eq_failure_iff (by decide) hrange

/-- There is a block exactly where a response reports its bytes. -/
theorem read_block_reply_eq_some_iff :
    (block height).read (x.reply url method) = .ok (some b) ↔
      ∃ status body, x.Delivers url status body ∧ ReportsBlock height b body := by
  rw [read_block_eq_some_iff]
  constructor
  · rintro ⟨text, raw, hreply, hraw, hb⟩
    obtain ⟨status, body, hdelivers, hread⟩ :=
      (reply_eq_iff_of_ne_transport fun _ => by simp).mp hreply
    have hreports := readResponse_eq_ok_string_iff.mp hread
    exact ⟨status, body, hdelivers, text, raw, hreports, hraw, hb⟩
  · rintro ⟨status, body, hdelivers, text, raw, hreports, hraw, hb⟩
    refine ⟨text, raw, (reply_eq_iff_of_ne_transport fun _ => by simp).mpr ?_, hraw, hb⟩
    exact ⟨status, body, hdelivers, readResponse_eq_ok_string_iff.mpr hreports⟩

end Query

end Exchange

end Node

section Turn

variable {ω : Type} {c : Ingest.Config}

theorem Ingest.afterFailure_ne_caughtUp (s s' : State) :
    afterFailure c s ≠ .finished (.ok .caughtUp) s' := by
  unfold afterFailure
  split <;> exact nofun

theorem Ingest.fst_afterAdd_ne_caughtUp (s s' : State) (outcome : Except CacheError AddOutcome) :
    (afterAdd c s outcome).1 ≠ .finished (.ok .caughtUp) s' := by
  unfold afterAdd
  split <;> first | exact afterFailure_ne_caughtUp s s' | exact nofun

/-- An ingestor that is not told to stop comes to rest in a turn that asks for a block and gets
none. -/
theorem Ingest.fst_turn_eq_caughtUp_iff {env : Environment ω} {s s' : State} {w : ω}
    (hrun : env.stopped w = false) :
    (turn c env s w).1 = .finished (.ok .caughtUp) s' ↔
      s' = s.rewind c.rewindStep ∧ s'.ReorgBounded c.maxReorgRounds ∧
        (env.fetch s'.height w).1 = .ok none := by
  unfold turn
  simp only [hrun, Bool.false_eq_true, if_false]
  split
  next hbounded =>
    unfold fetchAndAdd
    rcases hfetch : env.fetch (s.rewind c.rewindStep).height w with ⟨e | - | b, w'⟩
    · refine iff_of_false (afterFailure_ne_caughtUp _ _) ?_
      rintro ⟨rfl, -, h⟩
      simp [hfetch] at h
    · simp only [Turn.finished.injEq, true_and]
      constructor
      · rintro rfl
        exact ⟨rfl, hbounded, by rw [hfetch]⟩
      · exact fun h => h.1.symm
    · refine iff_of_false (fst_afterAdd_ne_caughtUp _ _ _) ?_
      rintro ⟨rfl, -, h⟩
      simp [hfetch] at h
  next hdeep =>
    refine iff_of_false nofun ?_
    rintro ⟨rfl, hbounded, -⟩
    exact hdeep hbounded

end Turn

namespace Server.Assembly

open Ingest Node

variable {ν : Type}

def overHttp (url : String) (post : String → List Json → ν → Delayed Exchange × ν)
    (method : String) (params : List Json) (w : ν) : Delayed Reply × ν :=
  let ((delay, x), world) := post method params w
  ((delay, x.reply url method), world)

theorem fst_fetch_overHttp (url : String) (post : String → List Json → ν → Delayed Exchange × ν)
    (height : Nat) (s : Backend ν) :
    (s.fetch (.ofCall (overHttp url post)) height).1 =
      ((Query.block height).read ((post "getblock" [.string (Text.decimal height), .nat 0]
        s.world).1.2.reply url "getblock")).mapError .ofError := by
  rfl

/-- A block is taken for one that is not mined yet exactly where a response reports this, and
there only the ingestor comes to rest. Everything else is a block that a response reports, or an
error. -/
theorem notMined_iff_reported (url : String) :
    (∀ (x : Exchange) (height : Nat),
      ((Query.block height).read (x.reply url "getblock") = .ok none ↔
        ∃ status body, x.Delivers url status body ∧ ReportsNotMined body) ∧
      ∀ b, (Query.block height).read (x.reply url "getblock") = .ok (some b) ↔
        ∃ status body, x.Delivers url status body ∧ ReportsBlock height b body) ∧
    ∀ (post : String → List Json → ν → Delayed Exchange × ν) (c : Ingest.Config) (s s' : State)
      (v : CatchUp ν),
      (turn c (catchUpEnvironment (.ofCall (overHttp url post))) s v).1 =
          .finished (.ok .caughtUp) s' ↔
        s' = s.rewind c.rewindStep ∧ s'.ReorgBounded c.maxReorgRounds ∧
          ∃ status body, (post "getblock" [.string (Text.decimal s'.height), .nat 0]
            v.backend.world).1.2.Delivers url status body ∧ ReportsNotMined body := by
  refine ⟨fun x height => ⟨Query.read_block_reply_eq_none_iff,
    fun b => Query.read_block_reply_eq_some_iff⟩, fun post c s s' v => ?_⟩
  have hfetch : ((catchUpEnvironment (.ofCall (overHttp url post))).fetch s'.height v).1 =
      (v.backend.fetch (.ofCall (overHttp url post)) s'.height).1 := rfl
  rw [fst_turn_eq_caughtUp_iff rfl, hfetch, fst_fetch_overHttp,
    ← Query.read_block_reply_eq_none_iff]
  generalize (Query.block s'.height).read _ = answer
  rcases answer with e | found
  · simp [Except.mapError]
  · simp [Except.mapError]

end Server.Assembly

end LightServer
