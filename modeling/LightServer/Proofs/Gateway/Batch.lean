import LightServer.Gateway.Service
import LightServer.Proofs.Gateway.Requests
import LightServer.Proofs.Json.Exact
import Mathlib.Data.List.Forall2

/-!
# Batches

The requests of a batch are answered as if they were sent one after the other, each on
its own: every one gets the response that it would get alone from the state in which
the one before has left the backend. What is no request leaves the state as it is, so
the others are answered as if it was not there. A text that is no JSON, and a batch that
is empty or too long, are refused as a whole.
-/

namespace LightServer.Gateway

variable {ν : Type} {u : Setup ν} {v out : Json} {vs outs : List Json} {s s' s₁ : Backend ν}
  {text : String} {r : Http.Request}

def IsSingle (v : Json) : Prop := ∀ vs, v ≠ .array vs

/-- Wherever the value is posted alone, it is answered by `out`, and the backend is left in the
state `s'`. -/
def AnsweredAlone (u : Setup ν) (s : Backend ν) (v out : Json) (s' : Backend ν) : Prop :=
  ∀ r text, Posts u.config "/" r text → Json.parse text = some v → AnswersJson u r s 200 out s'

/-- A request is answered by a response with its identifier, and everything else is refused
and changes nothing. -/
def AnsweredAs (v out : Json) (s s' : Backend ν) : Prop :=
  (∀ e, IsRequest v e → IsResponse (e.id.getD .null) out) ∧
    ((¬ ∃ e, IsRequest v e) → IsRefusal (-32600) out ∧ s' = s)

/-- The values are answered one after the other, each one by what answers a single value, and so
as if it was posted alone. An array cannot be posted as a request, and is refused. -/
inductive OneByOne (u : Setup ν) : Backend ν → List Json → List Json → Backend ν → Prop
  | nil (s : Backend ν) : OneByOne u s [] [] s
  | cons {s s₁ s₂ : Backend ν} {v out : Json} {vs outs : List Json}
      (step : answerOne u v s = (out, s₁))
      (alone : IsSingle v → AnsweredAlone u s v out s₁) (answered : AnsweredAs v out s s₁)
      (rest : OneByOne u s₁ vs outs s₂) : OneByOne u s (v :: vs) (out :: outs) s₂

theorem OneByOne.length_eq (h : OneByOne u s vs outs s') : outs.length = vs.length := by
  induction h with
  | nil => rfl
  | cons _ _ _ _ ih => rw [List.length_cons, List.length_cons, ih]

theorem not_exists_isRequest {err : ApiError} (h : Envelope.ofJson v = .error err) :
    ¬ ∃ e, IsRequest v e := by
  rintro ⟨e, he⟩
  rw [ofJson_eq_ok_iff.mpr he] at h
  cases h

theorem answeredAs_answerOne (u : Setup ν) (v : Json) (s : Backend ν) :
    AnsweredAs v (answerOne u v s).1 s (answerOne u v s).2 := by
  unfold answerOne
  cases hv : Envelope.ofJson v with
  | error err =>
      refine ⟨fun e he => absurd ⟨e, he⟩ (not_exists_isRequest hv), fun _ => ⟨?_, rfl⟩⟩
      have hrefusal := isRefusal_errorResponse err
      rw [code_of_ofJson_eq_error hv] at hrefusal
      exact hrefusal
  | ok e =>
      refine ⟨fun e' he' => ?_, fun h => absurd ⟨e, ofJson_eq_ok_iff.mp hv⟩ h⟩
      rw [ofJson_eq_ok_iff.mpr he'] at hv
      cases hv
      exact isResponse_response _ _

theorem answerText_of_single (hparse : Json.parse text = some v) (hv : IsSingle v) :
    answerText u text s = ((200, (answerOne u v s).1), (answerOne u v s).2) := by
  unfold answerText
  rw [hparse]
  cases v with
  | array vs => exact absurd rfl (hv vs)
  | _ => rfl

theorem answeredAlone_answerOne (hv : IsSingle v) :
    AnsweredAlone u s v (answerOne u v s).1 (answerOne u v s).2 := fun _ _ hposts hparse =>
  answersJson_of_posts hposts (answerText_of_single hparse hv)

theorem oneByOne_answerAll (u : Setup ν) (vs : List Json) (s : Backend ν) :
    OneByOne u s vs (answerAll u vs s).1 (answerAll u vs s).2 := by
  induction vs generalizing s with
  | nil => exact .nil s
  | cons v vs ih =>
      exact .cons rfl answeredAlone_answerOne (answeredAs_answerOne u v s) (ih (answerOne u v s).2)

def PostsValue (c : Config) (v : Json) (r : Http.Request) : Prop :=
  ∃ text, Posts c "/" r text ∧ Json.parse text = some v

/-- The responses carry the values, each one to its request. -/
inductive CarryEach (c : Config) : List Http.Request → List Json → List Http.Response → Prop
  | nil : CarryEach c [] [] []
  | cons {r : Http.Request} {out : Json} {answer : Http.Response} {rs : List Http.Request}
      {outs : List Json} {answers : List Http.Response}
      (carries : Carries c r 200 "application/json" out.compact answer)
      (rest : CarryEach c rs outs answers) : CarryEach c (r :: rs) (out :: outs) (answer :: answers)

/-- Requests that post the values one after the other come to the same as the batch. -/
theorem OneByOne.exists_respondAll {rs : List Http.Request} (h : OneByOne u s vs outs s')
    (hsingle : ∀ v ∈ vs, IsSingle v) (hrs : List.Forall₂ (PostsValue u.config) vs rs) :
    ∃ answers, respondAll u rs s = (answers, s') ∧ CarryEach u.config rs outs answers := by
  induction h generalizing rs with
  | nil s =>
      cases hrs
      exact ⟨[], rfl, .nil⟩
  | cons _ alone _ _ ih =>
      obtain ⟨hv, hvs⟩ := List.forall_mem_cons.mp hsingle
      cases hrs with
      | cons hr hrs =>
          obtain ⟨text, hposts, hparse⟩ := hr
          obtain ⟨answer, hanswer, hcarries⟩ := alone hv _ _ hposts hparse
          obtain ⟨answers, hanswers, hrest⟩ := ih hvs hrs
          refine ⟨answer :: answers, ?_, .cons hcarries hrest⟩
          simp only [respondAll, hanswer, hanswers]

/-- A text that is posted is refused if it is no JSON or if it is a batch of a size that is not
allowed. Otherwise a value is answered as it is, and the values of a batch are answered one by
one, as if they were posted in turn. -/
theorem refused_or_answered_of_posts (hposts : Posts u.config "/" r text) (s : Backend ν) :
    (Json.parse text = none →
      ∃ out, AnswersJson u r s 400 out s ∧ IsRefusal (-32700) out) ∧
    (∀ vs, Json.parse text = some (.array vs) →
      (vs.length = 0 ∨ u.config.maxBatchSize < vs.length →
        ∃ out, AnswersJson u r s 400 out s ∧ IsRefusal (-32600) out) ∧
      (0 < vs.length ∧ vs.length ≤ u.config.maxBatchSize →
        ∃ outs s', AnswersJson u r s 200 (.array outs) s' ∧ OneByOne u s vs outs s' ∧
          outs.length = vs.length ∧
          ∀ rs, (∀ v ∈ vs, IsSingle v) → List.Forall₂ (PostsValue u.config) vs rs →
            ∃ answers, respondAll u rs s = (answers, s') ∧ CarryEach u.config rs outs answers)) ∧
    ∀ v, Json.parse text = some v → IsSingle v →
      ∃ out s', answerOne u v s = (out, s') ∧ AnswersJson u r s 200 out s' ∧
        AnsweredAs v out s s' := by
  refine ⟨fun hparse => ?_, fun vs hparse => ⟨fun hsize => ?_, fun hsize => ?_⟩,
    fun v hparse hv => ?_⟩
  · refine ⟨_, answersJson_of_posts hposts ?_, isRefusal_errorResponse .malformedBody⟩
    unfold answerText
    rw [hparse]
  · refine ⟨_, answersJson_of_posts hposts ?_, isRefusal_errorResponse (batchError u.config)⟩
    have hnot : ¬ BatchAllowed u.config vs.length := by
      unfold BatchAllowed
      omega
    simp only [answerText, hparse, if_neg hnot]
  · -- the batch is answered by the fold that the relation describes
    have hone := oneByOne_answerAll u vs s
    refine ⟨_, _, answersJson_of_posts hposts ?_, hone, hone.length_eq,
      fun rs hsingle hrs => hone.exists_respondAll hsingle hrs⟩
    have hallowed : BatchAllowed u.config vs.length := hsize
    simp only [answerText, hparse, if_pos hallowed]
  · exact ⟨_, _, rfl, answersJson_of_posts hposts (answerText_of_single hparse hv),
      answeredAs_answerOne u v s⟩

def rootRequest (text : String) : Http.Request := ⟨"POST", "/", [], utf8 text⟩

def latestText : String := "\x7b\"method\":\"GetLatestBlock\"\x7d"

def latest : Json := .object [("method", .string "GetLatestBlock")]

def mixedText : String := "[7,\x7b\"method\":\"GetLatestBlock\"\x7d]"

theorem posts_mixedText : Posts Config.default "/" (rootRequest mixedText) mixedText :=
  ⟨rfl, by decide +kernel, by decide, by decide +kernel⟩

theorem exact_seven (depth : Nat) : Json.Exact depth (.integer 7) := .integer depth (by decide)

theorem exact_latest (depth : Nat) : Json.Exact (depth + 1) latest := by
  have heq : latest = .ofMembers [("method", .string "GetLatestBlock")] := rfl
  rw [heq]
  exact .ofMembers (List.forall_mem_singleton.mpr (.string depth "GetLatestBlock"))

theorem parse_mixedText : Json.parse mixedText = some (.array [.integer 7, latest]) := by
  have hexact : Json.Exact Json.maxDepth (.array [.integer 7, latest]) :=
    Json.Exact.array (List.forall_mem_cons.mpr
      ⟨exact_seven _, List.forall_mem_singleton.mpr (exact_latest _)⟩)
  have hcompact : (Json.array [.integer 7, latest]).compact = mixedText := by decide +kernel
  rw [← hcompact]
  exact hexact.parse_compact

/-- The number and the request are posted on their own. -/
theorem postsValues_mixed : List.Forall₂ (PostsValue Config.default) [.integer 7, latest]
    [rootRequest "7", rootRequest latestText] := by
  have hseven : (Json.integer 7).compact = "7" := by decide +kernel
  have hlatest : latest.compact = latestText := by decide +kernel
  refine .cons ⟨"7", ⟨rfl, by decide +kernel, by decide, by decide +kernel⟩, ?_⟩
    (.cons ⟨latestText, ⟨rfl, by decide +kernel, by decide, by decide +kernel⟩, ?_⟩ .nil)
  · rw [← hseven]
    exact (exact_seven Json.maxDepth).parse_compact
  · rw [← hlatest]
    exact (exact_latest _).parse_compact

theorem refused_or_answered_of_posts_mixed :
    Posts quietSetup.config "/" (rootRequest mixedText) mixedText ∧
      ∃ outs s', AnswersJson quietSetup (rootRequest mixedText) quietBackend 200 (.array outs) s' ∧
        outs.length = 2 ∧
        ∃ answers, respondAll quietSetup [rootRequest "7", rootRequest latestText] quietBackend =
            (answers, s') ∧
          CarryEach quietSetup.config [rootRequest "7", rootRequest latestText] outs answers := by
  have hsize : 0 < [Json.integer 7, latest].length ∧
      [Json.integer 7, latest].length ≤ quietSetup.config.maxBatchSize := by
    decide
  have hsingle : ∀ v ∈ [Json.integer 7, latest], IsSingle v := by
    rintro v hv vs rfl
    simp [latest] at hv
  have hbatch := (refused_or_answered_of_posts (u := quietSetup) posts_mixedText quietBackend).2.1
  obtain ⟨outs, s', hanswers, -, hlength, hturn⟩ := (hbatch _ parse_mixedText).2 hsize
  exact ⟨posts_mixedText, outs, s', hanswers, hlength, hturn _ hsingle postsValues_mixed⟩

end LightServer.Gateway
