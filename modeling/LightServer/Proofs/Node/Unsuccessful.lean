import LightServer.Proofs.Node.NotYetMined

/-!
# Responses that are not successful

The status of a response is looked at only where its body is no envelope. So whatever the
status is, a call succeeds exactly where the body is an envelope without an error.
-/

namespace LightServer.Node

open LightServer.Json ReplyEnvelope

variable {url method body : String} {status : Nat} {x : Exchange}

theorem Exchange.Delivers.reply_eq (h : x.Delivers url status body) :
    x.reply url method = readResponse method status body := by
  obtain ⟨haddress, sent, rfl, hfinal, rfl⟩ := h
  simp only [Exchange.reply, haddress, if_neg hfinal]

/-- A response whose status is not one of success makes a call succeed exactly where its body is an
envelope without an error. An error of an envelope is the failure of the call, and where there is
no envelope the call fails with the status. -/
theorem reply_complete_of_not_isSuccess (url method sent : String)
    (hstatus : ¬ Http.IsSuccess status) :
    (∀ v, (Exchange.complete status sent).reply url method = .ok v ↔
      ∃ body m, (Exchange.complete status sent).Delivers url status body ∧
        IsEnvelope body.toList m ∧ m.errorValue = .null ∧ v = m.resultValue) ∧
    ∀ body, (Exchange.complete status sent).Delivers url status body →
      (∀ m, IsEnvelope body.toList m → m.errorValue ≠ .null →
        (Exchange.complete status sent).reply url method =
          .error (.failure (.ofJson m.errorValue))) ∧
      ((∀ m, ¬ IsEnvelope body.toList m) → (Exchange.complete status sent).reply url method =
        .error (.transport ("HTTP " ++ Http.statusText status ++ " from node"))) := by
  refine ⟨fun v => ?_, fun body hdelivers => ?_⟩
  · rw [reply_eq_iff_of_ne_transport fun _ => by simp]
    simp only [readResponse_eq_ok_iff]
    constructor
    · rintro ⟨_, body, hdelivers, m, hm⟩
      obtain ⟨haddress, _, ⟨⟩, hdelivered⟩ := hdelivers
      exact ⟨body, m, ⟨haddress, sent, rfl, hdelivered⟩, hm⟩
    · rintro ⟨body, m, hdelivers, hm⟩
      exact ⟨status, body, hdelivers, m, hm⟩
  · rw [hdelivers.reply_eq]
    constructor
    · intro m hm herror
      rw [readResponse_of_isEnvelope hm]
      exact reply_ofMembers_of_ne_null herror
    · intro hnone
      rw [readResponse_of_not_isEnvelope hnone]
      exact if_neg hstatus

theorem reply_serviceUnavailable : ¬ Http.IsSuccess 503 ∧
    (Exchange.complete 503 "Work queue depth exceeded").reply "http://[::1]:8232" "getblockcount" =
      .error (.transport "HTTP 503 Service Unavailable from node") := by
  have hdelivers : (Exchange.complete 503 "Work queue depth exceeded").Delivers
      "http://[::1]:8232" 503 "Work queue depth exceeded" :=
    ⟨rfl, _, rfl, by decide, if_neg (by decide)⟩
  have hstatus : Http.statusText 503 = "503 Service Unavailable" := by decide
  have hreply := ((reply_complete_of_not_isSuccess "http://[::1]:8232" "getblockcount"
    "Work queue depth exceeded" (by decide)).2 _ hdelivers).2 (ofText?_eq_none_iff.mp rfl)
  refine ⟨by decide, hreply.trans ?_⟩
  rw [hstatus]
  rfl

theorem isEnvelope_answer : IsEnvelope "\x7b\"result\":42,\"error\":null\x7d".toList
    ⟨some (.integer 42), some .null⟩ := by
  have hresult : IsMember "\"result\":42".toList ("result", some (.integer 42)) :=
    ⟨"\"result\":".toList, "42".toList, rfl,
      ⟨[], "result".toList, [], rfl, blanks_nil, blanks_nil, rfl⟩, .inl rfl, [], rfl, blanks_nil⟩
  have herror : IsMember "\"error\":null".toList ("error", some .null) :=
    ⟨"\"error\":".toList, "null".toList, rfl,
      ⟨[], "error".toList, [], rfl, blanks_nil, blanks_nil, rfl⟩, .inr rfl, [], rfl, blanks_nil⟩
  exact .inl ⟨_, ⟨[], [], _, [], rfl, blanks_nil, blanks_nil, blanks_nil,
    .cons hresult (.cons herror .nil)⟩, rfl, rfl⟩

/-- A result that comes with a status of failure is taken all the same. -/
theorem not_forall_reply_eq_error : ¬ ∀ (url method sent : String) (status : Nat),
    ¬ Http.IsSuccess status → ∃ e, (Exchange.complete status sent).reply url method = .error e := by
  intro h
  obtain ⟨e, he⟩ := h "http://[::1]:8232" "getblockcount"
    "\x7b\"result\":42,\"error\":null\x7d" 500 (by decide)
  have hdelivers : (Exchange.complete 500 "\x7b\"result\":42,\"error\":null\x7d").Delivers
      "http://[::1]:8232" 500 "\x7b\"result\":42,\"error\":null\x7d" :=
    ⟨rfl, _, rfl, by decide, if_neg (by decide)⟩
  rw [hdelivers.reply_eq, readResponse_eq_ok_iff.mpr ⟨_, isEnvelope_answer, rfl, rfl⟩] at he
  cases he

end LightServer.Node
