import LightServer.Proofs.Gateway.Opening
import LightServer.Proofs.Gateway.Records
import LightServer.Proofs.Gateway.Requests
import LightServer.Proofs.Json.Fields

/-!
# Responses in lines

The responses of a stream stand on lines of their own. No text that flows into a response
can break its line, so splitting the body at line breaks gives the written forms of the
responses, and nothing else. A response is read back from its line as it was, up to an
identifier that is kept in floating point: that is read back as what its digits say.
-/

namespace LightServer.Gateway

open Json Http

variable {ν : Type} {u : Setup ν} {id v : Json} {items : List Json} {given : Except ApiError Json}
  {s s' : Backend ν} {text : String} {r : Request} {e : Envelope}

def withId (id : Json) : Json → Json
  | .object ms => .object (insertMember "id" id ms)
  | v => v

/-- What a client has that splits a body at line breaks and reads every piece on its own. -/
def readPieces (body : String) : List (Option Json) :=
  (body.toList.splitOn '\n').map fun piece => parse (String.ofList piece)

/-- The body consists of the items, each on a line of its own, and the items are responses to
the identifier of which only the last one can be an error. A client that splits the body gets
the items and an empty rest, and identifiers as their written forms are read. -/
structure Framed (id : Json) (items : List Json) (body : String) : Prop where
  lines : body.toList = items.flatMap fun v => v.write ++ ['\n']
  unbroken : ∀ v ∈ items, '\n' ∉ v.write
  object : ∀ v ∈ items, ∃ ms, v = .object ms
  response : ∀ v ∈ items, IsResponse id v
  errorLast : ∀ v ∈ items.dropLast, v.get? "error" = none
  pieces : readPieces body =
    items.map (fun v => (parse id.compact).map (withId · v)) ++ [none]
  exact : (∀ x, id ≠ .float x) → readPieces body = items.map some ++ [none]

theorem toList_lines (vs : List Json) :
    (lines vs).toList = vs.flatMap fun v => v.write ++ ['\n'] := by
  rw [lines, String.toList_join, List.flatMap_map]
  simp only [String.toList_append, compact, String.toList_ofList]
  rfl

theorem newline_not_mem_write (v : Json) : '\n' ∉ v.write := fun h =>
  absurd (le_toNat_of_mem_write v '\n' h) (by decide)

/-- Splitting lines that were put together gives them back, and an empty rest. -/
theorem splitOn_flatMap_lines {ls : List (List Char)} (h : ∀ l ∈ ls, '\n' ∉ l) :
    (ls.flatMap fun l => l ++ ['\n']).splitOn '\n' = ls ++ [[]] := by
  induction ls with
  | nil => rfl
  | cons l ls ih =>
      obtain ⟨hl, hls⟩ := List.forall_mem_cons.mp h
      have hrest := ih hls
      have hfirst := List.splitOn_eq_singleton hl
      unfold List.splitOn at hfirst hrest ⊢
      rw [List.flatMap_cons, List.append_assoc, List.singleton_append,
        List.splitOnP_append_cons (p := (· == '\n')) _ _ rfl, hfirst, hrest]
      rfl

/-- The pieces of lines are read as what the written forms of the values are read as. -/
theorem readPieces_lines (vs : List Json) :
    readPieces (lines vs) = vs.map (fun v => parse v.compact) ++ [none] := by
  have hunbroken : ∀ l ∈ vs.map write, '\n' ∉ l :=
    List.forall_mem_map.mpr fun v _ => newline_not_mem_write v
  have hsplit := splitOn_flatMap_lines hunbroken
  rw [List.flatMap_map] at hsplit
  have hempty : parse (String.ofList []) = none := by decide +kernel
  rw [readPieces, toList_lines, hsplit, List.map_append, List.map_map]
  simp only [List.map_cons, List.map_nil, hempty]
  rfl

theorem exists_response_eq_object (id : Option Json) (given : Except ApiError Json) :
    ∃ ms, Gateway.response id given = .object ms := by
  cases given with
  | ok v => exact ⟨_, resultResponse_eq id v⟩
  | error e => exact ⟨_, errorResponse_eq id e⟩

theorem withId_response (id : Option Json) (id' : Json) (given : Except ApiError Json) :
    withId id' (Gateway.response id given) = Gateway.response (some id') given := by
  cases given with
  | ok v =>
      simp (disch := decide) only [Gateway.response, resultResponse_eq, withId, insertMember,
        if_pos, if_neg, Option.getD_some]
  | error e =>
      simp (disch := decide) only [Gateway.response, errorResponse_eq, withId, insertMember,
        if_pos, if_neg, Option.getD_some]

/-- The identifier can be read, and with it the response. -/
theorem readable_response {id : Option Json} (hid : Readable innerDepth (id.getD .null))
    (h : Sound given) : Readable maxDepth (Gateway.response id given) := by
  cases given with
  | ok v =>
      have hkeys : ["id", "jsonrpc", "result"].Pairwise (· < ·) := by decide
      rw [Gateway.response, resultResponse_eq]
      refine .object (rising_of_keys hkeys) ?_
      simp [hid, Readable.string, Exact.readable h]
  | error e =>
      have hkeys : ["error", "id", "jsonrpc"].Pairwise (· < ·) := by decide
      rw [Gateway.response, errorResponse_eq]
      refine .object (rising_of_keys hkeys) ?_
      simp [hid, Readable.string, (ApiError.Fits.exact h).readable]

theorem reread_response (id : Option Json) (h : Sound given) :
    reread (Gateway.response id given) =
      (reread (id.getD .null)).map fun id' => Gateway.response (some id') given := by
  cases given with
  | ok v =>
      simp only [Gateway.response, resultResponse_eq, reread, rereadMembers, Exact.reread_eq h,
        Option.map_some, Option.bind_some]
      cases reread (id.getD .null) <;> rfl
  | error e =>
      simp only [Gateway.response, errorResponse_eq, reread, rereadMembers,
        (ApiError.Fits.exact h).reread_eq, Option.map_some, Option.bind_some]
      cases reread (id.getD .null) <;> rfl

/-- An identifier that comes from a text can be read wherever it stands. -/
theorem readable_of_isId {depth depth' : Nat} (hid : IsId id) (h : Readable depth id) :
    Readable depth' id := by
  cases h with
  | integer h => exact .integer h
  | float x => exact .float x
  | string s => exact .string s
  | _ => exact hid.elim

theorem readable_id_of_parse (hparse : parse text = some v) (he : IsRequest v e) (depth : Nat) :
    Readable depth (e.id.getD .null) := by
  obtain ⟨ms, rfl, hid, hvalid, -⟩ := he
  cases hsome : e.id with
  | none => exact .null
  | some id =>
      rw [hsome] at hid
      cases readable_of_parse hparse with
      | object _ h => exact readable_of_isId (hvalid id hsome) (h _ (mem_of_lookup hid))

theorem reread_eq_of_isId {id : Option Json} (hid : ∀ x ∈ id, IsId x)
    (hfloat : ∀ x, id.getD .null ≠ .float x) : reread (id.getD .null) = some (id.getD .null) := by
  cases id with
  | none => rfl
  | some id =>
      have hvalid := hid id rfl
      cases id with
      | float x => exact absurd rfl (hfloat x)
      | integer n => rfl
      | string s => rfl
      | _ => exact hvalid.elim

theorem response_some_getD (id : Option Json) (given : Except ApiError Json) :
    Gateway.response (some (id.getD .null)) given = Gateway.response id given := by
  cases given <;> rfl

/-- Responses to one identifier are framed when they are put into lines. -/
theorem framed_lines {id : Option Json} {given : List (Except ApiError Json)}
    (hid : ∀ x ∈ id, IsId x) (hreadable : ∀ depth, Readable depth (id.getD .null))
    (hsound : ∀ g ∈ given, Sound g) (hlast : ErrorLast given) :
    Framed (id.getD .null) (given.map (Gateway.response id))
      (lines (given.map (Gateway.response id))) := by
  -- all of a line but the identifier is read back as it was
  have hparse : ∀ g ∈ given, parse (Gateway.response id g).compact =
      (reread (id.getD .null)).map fun id' => Gateway.response (some id') g := fun g hg =>
    (readable_response (hreadable _) (hsound g hg)).parse_compact.trans
      (reread_response id (hsound g hg))
  refine ⟨toList_lines _, fun v _ => newline_not_mem_write v, ?_, ?_, ?_, ?_, fun hfloat => ?_⟩
  · exact List.forall_mem_map.mpr fun g _ => exists_response_eq_object id g
  · exact List.forall_mem_map.mpr fun g _ => isResponse_response id g
  · rw [← List.map_dropLast]
    refine List.forall_mem_map.mpr fun g hg => ?_
    obtain ⟨v, rfl⟩ := hlast g hg
    exact (isResult_resultResponse id v).get?_eq_none
  · rw [readPieces_lines]
    refine congrArg (· ++ [none]) (List.map_congr_left (List.forall_mem_map.mpr fun g hg => ?_))
    simp only [hparse g hg, (hreadable _).parse_compact, withId_response]
  · rw [readPieces_lines]
    refine congrArg (· ++ [none]) (List.map_congr_left (List.forall_mem_map.mpr fun g hg => ?_))
    rw [hparse g hg, reread_eq_of_isId hid hfloat, Option.map_some, response_some_getD]

theorem fits_of_ofJson_eq_error {err : ApiError} (h : Envelope.ofJson v = .error err) :
    err.Fits := by
  unfold Envelope.ofJson at h
  split at h
  · simp only at h
    split at h <;> cases h <;> exact ApiError.fits_ofCode _ (by decide)
  · cases h
    exact ApiError.fits_ofCode _ (by decide)

def Requests (text : String) (e : Envelope) : Prop := ∃ v, parse text = some v ∧ IsRequest v e

theorem streamText_of_requests (h : Requests text e) :
    streamText u text s = streamEnvelope u e s := by
  obtain ⟨v, hparse, he⟩ := h
  simp only [streamText, hparse, Option.elim_some, ofJson_eq_ok_iff.mpr he]

theorem framed_error {id : Option Json} {err : ApiError} (hid : ∀ x ∈ id, IsId x)
    (hreadable : ∀ depth, Readable depth (id.getD .null)) (h : err.Fits) :
    Framed (id.getD .null) [errorResponse id err] (lines [errorResponse id err]) := by
  have hsound : ∀ g ∈ [Except.error err], Sound g := List.forall_mem_singleton.mpr h
  exact framed_lines hid hreadable hsound nofun

theorem framed_streamEnvelope (hcodes : u.node.CodesFit) (h : Requests text e) :
    Framed (e.id.getD .null) (streamEnvelope u e s).1 (lines (streamEnvelope u e s).1) := by
  obtain ⟨v, hparse, he⟩ := h
  have hid : ∀ x ∈ e.id, IsId x := by
    obtain ⟨_, _, _, hid, _⟩ := he
    exact hid
  have hopens : Opens (openItems u e.method e.params s).1 := opens_openItems hcodes
  have hreadable := readable_id_of_parse hparse he
  unfold streamEnvelope
  simp only
  split
  next err herr => exact framed_error hid hreadable (hopens.1 err herr)
  next opened hopened =>
    obtain ⟨hsound, hlast⟩ := sound_read (s := countRequest e.method
      (outcomeOf (openItems u e.method e.params s).1) (openItems u e.method e.params s).2)
      hcodes (hopens.2 opened hopened)
    exact framed_lines hid hreadable hsound hlast

/-- What is no request is answered by one error, with the code for what is wrong. -/
theorem streamText_of_not_requests (h : ¬ ∃ e, Requests text e) :
    ∃ err : ApiError, streamText u text s = ([errorResponse none err], s) ∧ err.Fits ∧
      err.code = if parse text = none then ApiError.parseErrorCode else
        ApiError.invalidRequestCode := by
  cases hparse : parse text with
  | none =>
      refine ⟨.malformedBody, ?_, ApiError.fits_ofCode _ (by decide), rfl⟩
      simp only [streamText, hparse, Option.elim_none]
  | some v =>
      cases hv : Envelope.ofJson v with
      | ok e => exact absurd ⟨e, v, hparse, ofJson_eq_ok_iff.mp hv⟩ h
      | error err =>
          refine ⟨err, ?_, fits_of_ofJson_eq_error hv, code_of_ofJson_eq_error hv⟩
          simp only [streamText, hparse, Option.elim_some, hv]

theorem answers_of_posts_stream (h : Posts u.config "/stream" r text)
    (hanswer : streamText u text s = (items, s')) :
    Answers u r s 200 "application/x-ndjson" (lines items) s' := by
  have hroute : Route.ofPath? "/stream".toList = some .streaming := rfl
  refine answers_of_posts h hroute (List.mem_singleton.mpr rfl) ?_
  simp only [routeResponse, h.bodyText, streamResponse, hanswer]

/-- What is posted for a method with many responses is answered in lines: what the opened method
gives, item by item. A request that cannot be opened, and a text that is no request, are
answered by one error. -/
theorem framed_of_posts (hcodes : u.node.CodesFit) (hposts : Posts u.config "/stream" r text)
    (s : Backend ν) :
    ∃ items body s', Answers u r s 200 "application/x-ndjson" body s' ∧
      (∀ e, Requests text e → Framed (e.id.getD .null) items body ∧
        (∀ opened s₁, openItems u e.method e.params s = (.ok opened, s₁) →
          items = (opened.read u (countRequest e.method "ok" s₁)).1.map (response e.id)) ∧
        ∀ err s₁, openItems u e.method e.params s = (.error err, s₁) →
          items = [errorResponse e.id err]) ∧
      ((¬ ∃ e, Requests text e) → Framed .null items body ∧ ∃ out, items = [out] ∧
        IsRefusal (if parse text = none then -32700 else -32600) out) := by
  refine ⟨(streamText u text s).1, lines (streamText u text s).1, (streamText u text s).2,
    answers_of_posts_stream hposts rfl, fun e he => ?_, fun h => ?_⟩
  · rw [streamText_of_requests he]
    refine ⟨framed_streamEnvelope hcodes he, fun opened s₁ hopened => ?_, fun err s₁ herr => ?_⟩
    · rw [streamEnvelope_of_opened hopened]
    · rw [streamEnvelope_of_refused herr]
  · obtain ⟨err, heq, hfits, hcode⟩ := streamText_of_not_requests (u := u) (s := s) h
    have hid : ∀ x ∈ (none : Option Json), IsId x := nofun
    have hframed := framed_error hid (fun _ => .null) hfits
    have hrefusal := isRefusal_errorResponse err
    rw [hcode] at hrefusal
    rw [heq]
    exact ⟨hframed, _, rfl, hrefusal⟩

def streamRequest (text : String) : Request := ⟨"POST", "/stream", [], utf8 text⟩

def brokenText : String :=
  "\x7b\"id\":\"a\\n\",\"method\":\"GetBlockRange\",\"params\":" ++
    "\x7b\"start\":\x7b\"height\":0\x7d,\"end\":\x7b\"height\":0\x7d\x7d\x7d"

def floatText : String :=
  "\x7b\"id\":82.5e129,\"method\":\"GetBlockRange\",\"params\":" ++
    "\x7b\"start\":\x7b\"height\":0\x7d,\"end\":\x7b\"height\":0\x7d\x7d\x7d"

/-- The identifier of the request in a text, if there is one and it is a string. -/
def textId? (text : String) : Option String :=
  match (parse text).map Envelope.ofJson with
  | some (.ok ⟨some (.string id), _, _⟩) => some id
  | _ => none

theorem exists_requests_of_textId? {x : String} (h : textId? text = some x) :
    ∃ e, Requests text e ∧ e.id = some (.string x) := by
  unfold textId? at h
  split at h
  next hread =>
    obtain ⟨v, hparse, he⟩ := Option.map_eq_some_iff.mp hread
    cases h
    exact ⟨_, ⟨v, hparse, ofJson_eq_ok_iff.mp he⟩, rfl⟩
  next => exact nomatch h

theorem codesFit_quietSetup : quietSetup.node.CodesFit := nofun

theorem framed_of_posts_block : quietSetup.node.CodesFit ∧
    Posts quietSetup.config "/stream" (streamRequest brokenText) brokenText ∧
    ∃ items body s', Answers quietSetup (streamRequest brokenText) quietBackend 200
        "application/x-ndjson" body s' ∧
      Framed (.string "a\n") items body := by
  have hposts : Posts quietSetup.config "/stream" (streamRequest brokenText) brokenText :=
    ⟨rfl, by decide +kernel, by decide, by decide +kernel⟩
  have hid : textId? brokenText = some "a\n" := by decide +kernel
  obtain ⟨e, hrequests, hid⟩ := exists_requests_of_textId? hid
  obtain ⟨items, body, s', hanswers, hframed, -⟩ :=
    framed_of_posts codesFit_quietSetup hposts quietBackend
  have hlines := (hframed e hrequests).1
  rw [hid] at hlines
  exact ⟨codesFit_quietSetup, hposts, items, body, s', hanswers, hlines⟩

def floatId? (v : Json) : Option Binary64 :=
  match v.get? "id" with
  | some (.float x) => some x
  | _ => none

/-- The identifier is read as `8.250000000000001e+130` and written so. What is written is read as
`8.250000000000002e+130`, so the items are not what a client gets from the lines. -/
theorem readPieces_ne_of_float_id : ∃ items s',
    Posts quietSetup.config "/stream" (streamRequest floatText) floatText ∧
      streamText quietSetup floatText quietBackend = (items, s') ∧
      Answers quietSetup (streamRequest floatText) quietBackend 200 "application/x-ndjson"
        (lines items) s' ∧
      readPieces (lines items) ≠ items.map some ++ [none] := by
  have hposts : Posts quietSetup.config "/stream" (streamRequest floatText) floatText :=
    ⟨rfl, by decide +kernel, by decide, by decide +kernel⟩
  have hother : ∃ v ∈ (streamText quietSetup floatText quietBackend).1,
      (parse v.compact).bind floatId? ≠ floatId? v := by
    decide +kernel
  cases hanswer : streamText quietSetup floatText quietBackend with
  | mk items s' =>
      refine ⟨items, s', hposts, rfl, answers_of_posts_stream hposts hanswer, fun h => ?_⟩
      rw [hanswer] at hother
      obtain ⟨v, hv, hne⟩ := hother
      rw [readPieces_lines, List.append_cancel_right_eq, List.map_inj_left] at h
      rw [h v hv] at hne
      exact hne rfl

end LightServer.Gateway
