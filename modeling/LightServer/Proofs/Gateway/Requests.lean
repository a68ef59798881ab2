import LightServer.Gateway.Routes

/-!
# Requests and what they are answered with

A request is an object with a method, and with an identifier that is a number or a short
string, or without one. Everything else is refused. A response names the version of the
protocol and an identifier, and has either a result or an error. What is posted to a
path is answered by what the text of its body says.
-/

namespace LightServer.Gateway

variable {ν : Type} {u : Setup ν} {c : Config} {v id out : Json} {e : Envelope} {err : ApiError}
  {s : Backend ν} {text path : String} {r : Http.Request}

/-- A number, or a string of up to 256 bytes that is not empty. -/
def IsId : Json → Prop
  | .integer _ | .float _ => True
  | .string s => 0 < s.utf8ByteSize ∧ s.utf8ByteSize ≤ 256
  | _ => False

/-- The value is a request: an object with a method, and with an identifier or without one. -/
def IsRequest (v : Json) (e : Envelope) : Prop :=
  ∃ ms, v = .object ms ∧ Json.lookup "id" ms = e.id ∧ (∀ id ∈ e.id, IsId id) ∧
    Json.lookup "method" ms = some (.string e.method) ∧ Json.lookup "params" ms = e.params

theorem idFault?_eq_none_iff : Envelope.idFault? id = none ↔ IsId id := by
  cases id with
  | string s =>
      have hempty : s.isEmpty = true ↔ s.utf8ByteSize = 0 := String.isEmpty_iff_utf8ByteSize_eq_zero
      unfold Envelope.idFault? IsId Envelope.maxIdLength
      grind
  | _ => simp [Envelope.idFault?, IsId]

theorem bind_idFault?_eq_none_iff {x : Option Json} :
    x.bind Envelope.idFault? = none ↔ ∀ id ∈ x, IsId id := by
  simp only [Option.bind_eq_none_iff, idFault?_eq_none_iff, Option.mem_def]

/-- Reading takes the requests, as they are. -/
theorem ofJson_eq_ok_iff : Envelope.ofJson v = .ok e ↔ IsRequest v e := by
  cases v with
  | object ms =>
      obtain ⟨id, method, params⟩ := e
      simp only [Envelope.ofJson, IsRequest, Json.object.injEq, exists_eq_left',
        ← bind_idFault?_eq_none_iff]
      split
      next h => exact iff_of_false nofun fun ⟨hid, hnone, _⟩ => by simp [← hid, h] at hnone
      next h hmethod =>
        simp only [Except.ok.injEq, Envelope.mk.injEq]
        constructor
        · rintro ⟨rfl, rfl, rfl⟩
          exact ⟨rfl, h, hmethod, rfl⟩
        · rintro ⟨rfl, -, hmethod', rfl⟩
          rw [hmethod] at hmethod'
          cases hmethod'
          exact ⟨rfl, rfl, rfl⟩
      next h hmethod => exact iff_of_false nofun fun ⟨_, _, h', _⟩ => hmethod _ h'
  | _ => exact iff_of_false nofun (by rintro ⟨_, h, _⟩; cases h)

/-- What is no request is refused as such. -/
theorem code_of_ofJson_eq_error (h : Envelope.ofJson v = .error err) :
    err.code = ApiError.invalidRequestCode := by
  unfold Envelope.ofJson at h
  split at h
  · simp only at h
    split at h <;> cases h <;> rfl
  · cases h
    rfl

structure IsResponse (id out : Json) : Prop where
  version : out.get? "jsonrpc" = some (.string "2.0")
  id : out.get? "id" = some id
  either : (out.get? "result").isSome = !(out.get? "error").isSome

def IsResult (id v out : Json) : Prop := IsResponse id out ∧ out.get? "result" = some v

def IsFault (id : Json) (code : Int) (out : Json) : Prop :=
  IsResponse id out ∧ ∃ record, out.get? "error" = some record ∧
    record.get? "code" = some (.integer code)

def IsRefusal (code : Int) (out : Json) : Prop := IsFault .null code out

theorem IsFault.get?_ne_none {code : Int} (h : IsFault id code out) : out.get? "error" ≠ none := by
  obtain ⟨-, record, hrecord, -⟩ := h
  rw [hrecord]
  exact Option.some_ne_none record

theorem IsResult.get?_eq_none (h : IsResult id v out) : out.get? "error" = none := by
  have heither := h.1.either
  rw [h.2] at heither
  exact Option.not_isSome_iff_eq_none.mp (by simpa using heither)

theorem resultResponse_eq (id : Option Json) (v : Json) : resultResponse id v =
    .object [("id", id.getD .null), ("jsonrpc", .string "2.0"), ("result", v)] := by
  simp (disch := decide) only [resultResponse, Json.ofMembers, List.foldl_cons, List.foldl_nil,
    Json.insertMember, if_pos, if_neg]

theorem errorResponse_eq (id : Option Json) (err : ApiError) : errorResponse id err =
    .object [("error", err.toJson), ("id", id.getD .null), ("jsonrpc", .string "2.0")] := by
  simp (disch := decide) only [errorResponse, Json.ofMembers, List.foldl_cons, List.foldl_nil,
    Json.insertMember, if_pos, if_neg]

theorem errorResponse_ne_resultResponse (id : Option Json) (err : ApiError) (v : Json) :
    errorResponse id err ≠ resultResponse id v := by
  rw [errorResponse_eq, resultResponse_eq]
  simp

theorem code_toJson (err : ApiError) : err.toJson.get? "code" = some (.integer err.code) := by
  unfold ApiError.toJson
  cases err.data <;>
    simp (disch := decide) only [Json.ofMembers, List.cons_append, List.nil_append,
      List.foldl_cons, List.foldl_nil, Json.insertMember, Json.get?, Json.lookup, if_pos, if_neg]

/-- Responses with errors that have different codes are different. -/
theorem code_eq_of_errorResponse_eq {id : Option Json} {err' : ApiError}
    (h : errorResponse id err = errorResponse id err') : err.code = err'.code := by
  rw [errorResponse_eq, errorResponse_eq] at h
  have hrecord : err.toJson = err'.toJson := by simpa using h
  have hcode := code_toJson err
  rw [hrecord, code_toJson] at hcode
  exact (Json.integer.inj (Option.some.inj hcode)).symm

/-- Whatever a request gives, what it is answered with is a response with its identifier. -/
theorem isResponse_response (id : Option Json) (given : Except ApiError Json) :
    IsResponse (id.getD .null) (response id given) := by
  cases given with
  | ok v =>
      rw [response, resultResponse_eq]
      constructor <;> simp [Json.get?, Json.lookup]
  | error err =>
      rw [response, errorResponse_eq]
      constructor <;> simp [Json.get?, Json.lookup]

theorem isResult_resultResponse (id : Option Json) (v : Json) :
    IsResult (id.getD .null) v (resultResponse id v) := by
  refine ⟨isResponse_response id (.ok v), ?_⟩
  rw [resultResponse_eq]
  simp [Json.get?, Json.lookup]

theorem isFault_errorResponse (id : Option Json) (err : ApiError) :
    IsFault (id.getD .null) err.code (errorResponse id err) := by
  refine ⟨isResponse_response id (.error err), err.toJson, ?_, code_toJson err⟩
  rw [errorResponse_eq]
  simp [Json.get?, Json.lookup]

theorem isRefusal_errorResponse (err : ApiError) : IsRefusal err.code (errorResponse none err) :=
  isFault_errorResponse none err

/-- The request posts the text to the path, and the text is not too long. -/
structure Posts (c : Config) (path : String) (r : Http.Request) (text : String) : Prop where
  method : r.method = "POST"
  path : Http.path r.target = path.toList
  length_le : r.body.length ≤ c.maxRequestSize
  decode : Utf8.decode r.body = .ok text

theorem Posts.bodyText (h : Posts c path r text) : bodyText c r = .ok text := by
  unfold Gateway.bodyText
  rw [if_neg (Nat.not_lt.mpr h.length_le), h.decode]

/-- The response has the status and a body of the type, and the headers for other origins. -/
structure Carries (c : Config) (r : Http.Request) (status : Nat) (mime text : String)
    (answer : Http.Response) : Prop where
  status : answer.status = status
  contentType : answer.headers.get? "content-type" = some mime
  headers : answer.headers = ("content-type", mime) :: Cors.common c.cors r
  body : answer.body = text

theorem carries_typed (c : Config) (r : Http.Request) (status : Nat) (mime text : String) :
    Carries c r status mime text
      ((Http.Response.typed status mime text).withHeaders (Cors.common c.cors r)) where
  status := rfl
  contentType := by
    have hname : ("content-type".toLower == "content-type") = true := by decide +kernel
    simp only [Http.Headers.get?, Http.Response.withHeaders, Http.Response.typed,
      List.singleton_append, List.find?_cons, hname, Option.map_some]
  headers := rfl
  body := rfl

/-- The request is answered with the status and a body of the type, and the backend is left in the
state `s'`. -/
def Answers (u : Setup ν) (r : Http.Request) (s : Backend ν) (status : Nat) (mime text : String)
    (s' : Backend ν) : Prop :=
  ∃ answer, respond u r s = (answer, s') ∧ Carries u.config r status mime text answer

def AnswersJson (u : Setup ν) (r : Http.Request) (s : Backend ν) (status : Nat) (out : Json)
    (s' : Backend ν) : Prop :=
  Answers u r s status "application/json" out.compact s'

/-- A route for requests that are posted answers to the text. -/
theorem answers_of_posts {route : Route} {status : Nat} {mime body : String} {s' : Backend ν}
    (h : Posts u.config path r text) (hroute : Route.ofPath? path.toList = some route)
    (hallows : route.Allows "POST")
    (hanswer : routeResponse u route r s = (.typed status mime body, s')) :
    Answers u r s status mime body s' := by
  refine ⟨_, ?_, carries_typed u.config r status mime body⟩
  unfold respond respondOnRoute
  simp only [h.method, h.path, hroute, hallows, hanswer, if_true]
  rw [if_neg (by decide), if_neg (by decide)]

theorem answersJson_of_posts {status : Nat} {s' : Backend ν} (h : Posts u.config "/" r text)
    (hanswer : answerText u text s = ((status, out), s')) : AnswersJson u r s status out s' := by
  have hroute : Route.ofPath? "/".toList = some .unary := rfl
  refine answers_of_posts h hroute (List.mem_singleton.mpr rfl) ?_
  simp only [routeResponse, h.bodyText, unaryResponse, hanswer, jsonResponse]

def quietSetup : Setup Unit := ⟨.ofCall fun _ _ w => ((0, .ok .null), w), .default, .default⟩

def quietBackend : Backend Unit := ⟨(), .empty .standard 100, {}, 0⟩

end LightServer.Gateway
