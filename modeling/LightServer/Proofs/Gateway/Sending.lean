import LightServer.Proofs.Gateway.Requests
import LightServer.Proofs.Node.NotYetMined

/-!
# What is said of a transaction that was sent

A wallet is told by code 0 that the node took its transaction, and by any other code
that it did not. The codes of failures are the node's own, so a failure with code 0 is
told like a success. This is the only way in which a transaction that the node did not
take is told, or counted, as one that it took. With a node behind an address it takes a
response whose error says the code 0, as a number or in front of a colon in a text.
-/

namespace LightServer

namespace Node

variable {url method body : String} {x : Exchange} {raw : Bytes} {reply : Reply}
  {o : SendOutcome} {code : Int}

theorem Query.read_sendTransaction_eq_ok_iff : (sendTransaction raw).read reply = .ok o ↔
    (o.code = 0 ∧ reply = .ok (.string o.message)) ∨
      reply = .error (.failure ⟨o.code, o.message⟩) := by
  obtain ⟨code, message⟩ := o
  cases reply with
  | error e =>
      cases e with
      | failure f => cases f; simp [sendTransaction]
      | _ => simp [sendTransaction]
  | ok v =>
      cases v with
      | string text => simp [sendTransaction, textResult, Except.map, @eq_comm Int 0]
      | _ => simp [sendTransaction, textResult, Except.map]

def ReportsText (body : String) : Prop := ∃ text, ReportsResult text body

theorem exists_reply_eq_string_iff : (∃ text, x.reply url method = .ok (.string text)) ↔
    ∃ status body, x.Delivers url status body ∧ ReportsText body := by
  constructor
  · rintro ⟨text, hreply⟩
    obtain ⟨status, body, hdelivers, hread⟩ :=
      (reply_eq_iff_of_ne_transport fun _ => by simp).mp hreply
    exact ⟨status, body, hdelivers, text, readResponse_eq_ok_string_iff.mp hread⟩
  · rintro ⟨status, body, hdelivers, text, hreports⟩
    exact ⟨text, (reply_eq_iff_of_ne_transport fun _ => by simp).mpr
      ⟨status, body, hdelivers, readResponse_eq_ok_string_iff.mpr hreports⟩⟩

end Node

namespace Gateway

open Metrics

variable {ν : Type} {u : Setup ν} {t : RawTransaction} {s : Backend ν} {raw : Bytes}
  {reply reply' : Node.Reply} {o o' : Node.SendOutcome} {code : Int} {label : String}

def NodeReplies (u : Setup ν) (t : RawTransaction) (s : Backend ν) (reply : Node.Reply) : Prop :=
  ∃ raw, Hex.decode t.data = .ok raw ∧ raw ≠ [] ∧
    (u.node.call "sendrawtransaction" [.string (Hex.encode raw)] s.world).1.2 = reply

theorem NodeReplies.unique (h : NodeReplies u t s reply) (h' : NodeReplies u t s reply') :
    reply = reply' := by
  obtain ⟨raw, hraw, -, rfl⟩ := h
  obtain ⟨raw', hraw', -, rfl⟩ := h'
  rw [hraw] at hraw'
  cases hraw'
  rfl

def NodeSays (u : Setup ν) (t : RawTransaction) (s : Backend ν) (o : Node.SendOutcome) : Prop :=
  (o.code = 0 ∧ NodeReplies u t s (.ok (.string o.message))) ∨
    NodeReplies u t s (.error (.failure ⟨o.code, o.message⟩))

theorem nodeSays_iff (h : NodeReplies u t s reply) :
    NodeSays u t s o ↔ (Node.Query.sendTransaction raw).read reply = .ok o := by
  have hreply : ∀ reply', NodeReplies u t s reply' ↔ reply = reply' :=
    fun reply' => ⟨h.unique, fun heq => heq ▸ h⟩
  rw [Node.Query.read_sendTransaction_eq_ok_iff, NodeSays, hreply, hreply]

theorem NodeSays.unique (h : NodeSays u t s o) (h' : NodeSays u t s o') : o = o' := by
  obtain ⟨reply, hreply⟩ : ∃ reply, NodeReplies u t s reply :=
    h.elim (fun h => ⟨_, h.2⟩) (fun h => ⟨_, h⟩)
  have hread : (Node.Query.sendTransaction []).read reply = .ok o := (nodeSays_iff hreply).mp h
  have hread' := hread.symm.trans ((nodeSays_iff hreply).mp h')
  exact Except.ok.inj hread'

inductive Sent (u : Setup ν) (t : RawTransaction) (s : Backend ν) : Answered ν Json → Prop where
  | failed {s' : Backend ν} (e : ApiError) (hnone : ∀ o, ¬ NodeSays u t s o)
      (hmetrics : s'.metrics = s.metrics) : Sent u t s (.error e, s')
  | told {s' : Backend ν} {o : Node.SendOutcome} (hsaid : NodeSays u t s o)
      (hmetrics : s'.metrics = s.metrics) :
      Sent u t s (.ok (sendResponse o), s'.record (.transactionSent (sentLabel o)))

theorem not_nodeSays_of_decode (h : ∀ raw, Hex.decode t.data = .ok raw → raw = []) :
    ¬ NodeSays u t s o := by
  rintro (⟨-, raw, hraw, hne, -⟩ | ⟨raw, hraw, hne, -⟩)
  · exact hne (h raw hraw)
  · exact hne (h raw hraw)

theorem sent_sendTransaction (u : Setup ν) (t : RawTransaction) (s : Backend ν) :
    Sent u t s (sendTransaction u t s) := by
  unfold sendTransaction
  split
  next hraw =>
    refine .failed _ (fun o => not_nodeSays_of_decode fun raw h => ?_) rfl
    rw [hraw] at h
    cases h
  next hraw =>
    refine .failed _ (fun o => not_nodeSays_of_decode fun raw h => ?_) rfl
    rw [hraw] at h
    cases h
    rfl
  next raw hne hraw =>
    have hreply : NodeReplies u t s _ := ⟨raw, hraw, hne, rfl⟩
    split
    next hask =>
      obtain ⟨hread, rfl⟩ := Prod.mk.inj hask
      refine .failed _ (fun o hsaid => ?_) rfl
      have hread' := hread.symm.trans ((nodeSays_iff hreply).mp hsaid)
      cases hread'
    next hask =>
      obtain ⟨hread, rfl⟩ := Prod.mk.inj hask
      exact .told ((nodeSays_iff hreply).mpr hread) rfl

def Tells (u : Setup ν) (t : RawTransaction) (s : Backend ν) (code : Int) : Prop :=
  ∃ v, (sendTransaction u t s).1 = .ok v ∧ v.get? "error_code" = some (.integer code)

def CountsAs (u : Setup ν) (t : RawTransaction) (s : Backend ν) (label : String) : Prop :=
  (sendTransaction u t s).2.metrics.transactionsSent.get [label] =
    s.metrics.transactionsSent.get [label] + 1

theorem get_sendResponse (o : Node.SendOutcome) :
    (sendResponse o).get? "error_code" = some (.integer o.code) := by
  simp (disch := decide) only [sendResponse, Json.ofMembers, List.foldl_cons, List.foldl_nil,
    Json.insertMember, Json.get?, Json.lookup, if_pos, if_neg]

theorem tells_iff : Tells u t s code ↔ ∃ o, NodeSays u t s o ∧ o.code = code := by
  unfold Tells
  have hsent := sent_sendTransaction u t s
  generalize sendTransaction u t s = given at hsent
  cases hsent with
  | failed e hnone => exact iff_of_false (by rintro ⟨_, ⟨⟩, _⟩) fun ⟨o, hsaid, _⟩ => hnone o hsaid
  | @told _ o hsaid =>
      constructor
      · rintro ⟨v, hv, hcode⟩
        cases hv
        rw [get_sendResponse] at hcode
        cases hcode
        exact ⟨o, hsaid, rfl⟩
      · rintro ⟨o', hsaid', rfl⟩
        cases hsaid.unique hsaid'
        exact ⟨_, rfl, get_sendResponse o⟩

theorem countsAs_iff : CountsAs u t s label ↔ ∃ o, NodeSays u t s o ∧ sentLabel o = label := by
  unfold CountsAs
  have hsent := sent_sendTransaction u t s
  generalize sendTransaction u t s = given at hsent
  cases hsent with
  | failed e hnone hmetrics =>
      rw [hmetrics]
      exact iff_of_false (Nat.ne_of_lt (Nat.lt_succ_self _)) fun ⟨o, hsaid, _⟩ => hnone o hsaid
  | @told s' o hsaid hmetrics =>
      have hcounts : (s'.record (.transactionSent (sentLabel o))).metrics.transactionsSent =
          s.metrics.transactionsSent.increment [sentLabel o] := by
        rw [← hmetrics]
        rfl
      rw [hcounts]
      by_cases hlabel : sentLabel o = label
      · refine iff_of_true ?_ ⟨o, hsaid, hlabel⟩
        rw [hlabel, Counts.get_increment_self]
      · have hne : [sentLabel o] ≠ [label] := fun h => hlabel (List.singleton_inj.mp h)
        rw [Counts.get_increment_of_ne hne]
        refine iff_of_false (Nat.ne_of_lt (Nat.lt_succ_self _)) ?_
        rintro ⟨o', hsaid', hlabel'⟩
        cases hsaid.unique hsaid'
        exact hlabel hlabel'

def Accepts (u : Setup ν) (t : RawTransaction) (s : Backend ν) : Prop :=
  ∃ text, NodeReplies u t s (.ok (.string text))

def FailsWith (u : Setup ν) (t : RawTransaction) (s : Backend ν) (code : Int) : Prop :=
  ∃ message, NodeReplies u t s (.error (.failure ⟨code, message⟩))

theorem tells_iff_replies :
    Tells u t s code ↔ (code = 0 ∧ Accepts u t s) ∨ FailsWith u t s code := by
  rw [tells_iff]
  constructor
  · rintro ⟨⟨code, text⟩, ⟨hcode, h⟩ | h, rfl⟩
    · exact .inl ⟨hcode, text, h⟩
    · exact .inr ⟨text, h⟩
  · rintro (⟨hcode, text, h⟩ | ⟨message, h⟩)
    · exact ⟨⟨code, text⟩, .inl ⟨hcode, h⟩, rfl⟩
    · exact ⟨⟨code, message⟩, .inr h, rfl⟩

theorem tells_zero_iff : Tells u t s 0 ↔ Accepts u t s ∨ FailsWith u t s 0 := by
  simp only [tells_iff_replies, true_and]

theorem sentLabel_eq_accepted_iff : sentLabel o = "accepted" ↔ o.code = 0 := by
  unfold sentLabel
  by_cases h : o.Accepted
  · rw [if_pos h]
    exact iff_of_true rfl h
  · rw [if_neg h]
    exact iff_of_false (by decide) h

theorem countsAs_accepted_iff : CountsAs u t s "accepted" ↔ Tells u t s 0 := by
  simp only [countsAs_iff, tells_iff, sentLabel_eq_accepted_iff]

/-- The wallet is told, and counted is, that the node took the transaction exactly when it did, and
each failure is told and counted as one. -/
structure SentTruly (u : Setup ν) (t : RawTransaction) (s : Backend ν) : Prop where
  told : Tells u t s 0 ↔ Accepts u t s
  counted : CountsAs u t s "accepted" ↔ Accepts u t s
  refused : ∀ code, FailsWith u t s code →
    (∃ n, n ≠ 0 ∧ Tells u t s n) ∧ CountsAs u t s "rejected"

theorem sentTruly_iff : SentTruly u t s ↔ ¬ FailsWith u t s 0 := by
  constructor
  · intro h hzero
    obtain ⟨text, haccepts⟩ := h.told.mp (tells_zero_iff.mpr (.inr hzero))
    obtain ⟨message, hfails⟩ := hzero
    cases hfails.unique haccepts
  · intro hnone
    have htold : Tells u t s 0 ↔ Accepts u t s := by
      rw [tells_zero_iff]
      exact or_iff_left hnone
    refine ⟨htold, countsAs_accepted_iff.trans htold, fun code hfails => ?_⟩
    have hcode : code ≠ 0 := by
      rintro rfl
      exact hnone hfails
    obtain ⟨message, hreply⟩ := hfails
    have hsaid : NodeSays u t s ⟨code, message⟩ := .inr hreply
    exact ⟨⟨code, hcode, tells_iff.mpr ⟨_, hsaid, rfl⟩⟩,
      countsAs_iff.mpr ⟨_, hsaid, if_neg hcode⟩⟩

section Http

variable {url : String} {post : String → List Json → ν → Delayed Node.Exchange × ν} {c : Config}
  {r : Retrieval.Config}

def httpSetup (url : String) (post : String → List Json → ν → Delayed Node.Exchange × ν)
    (c : Config) (r : Retrieval.Config) : Setup ν :=
  ⟨.ofCall (Server.Assembly.overHttp url post), c, r⟩

def Responds (url : String) (post : String → List Json → ν → Delayed Node.Exchange × ν)
    (t : RawTransaction) (s : Backend ν) (body : String) : Prop :=
  ∃ raw status, Hex.decode t.data = .ok raw ∧ raw ≠ [] ∧
    (post "sendrawtransaction" [.string (Hex.encode raw)] s.world).1.2.Delivers url status body

theorem nodeReplies_httpSetup_iff : NodeReplies (httpSetup url post c r) t s reply ↔
    ∃ raw, Hex.decode t.data = .ok raw ∧ raw ≠ [] ∧
      (post "sendrawtransaction" [.string (Hex.encode raw)] s.world).1.2.reply url
        "sendrawtransaction" = reply := by
  simp only [NodeReplies, httpSetup, NodeAccess.ofCall, Server.Assembly.overHttp]

theorem accepts_httpSetup_iff : Accepts (httpSetup url post c r) t s ↔
    ∃ body, Responds url post t s body ∧ Node.ReportsText body := by
  constructor
  · rintro ⟨text, h⟩
    obtain ⟨raw, hraw, hne, hreply⟩ := nodeReplies_httpSetup_iff.mp h
    obtain ⟨status, body, hdelivers, hreports⟩ :=
      Node.exists_reply_eq_string_iff.mp ⟨text, hreply⟩
    exact ⟨body, ⟨raw, status, hraw, hne, hdelivers⟩, hreports⟩
  · rintro ⟨body, ⟨raw, status, hraw, hne, hdelivers⟩, hreports⟩
    obtain ⟨text, hreply⟩ := Node.exists_reply_eq_string_iff.mpr ⟨status, body, hdelivers, hreports⟩
    exact ⟨text, nodeReplies_httpSetup_iff.mpr ⟨raw, hraw, hne, hreply⟩⟩

theorem failsWith_httpSetup_iff (hcode : code ≠ Node.Failure.miscellaneous)
    (hrange : Node.Int64 code) : FailsWith (httpSetup url post c r) t s code ↔
      ∃ body, Responds url post t s body ∧ Node.ReportsCode code body := by
  constructor
  · rintro ⟨message, h⟩
    obtain ⟨raw, hraw, hne, hreply⟩ := nodeReplies_httpSetup_iff.mp h
    obtain ⟨status, body, hdelivers, hreports⟩ :=
      (Node.exists_reply_eq_failure_iff hcode hrange).mp ⟨message, hreply⟩
    exact ⟨body, ⟨raw, status, hraw, hne, hdelivers⟩, hreports⟩
  · rintro ⟨body, ⟨raw, status, hraw, hne, hdelivers⟩, hreports⟩
    obtain ⟨message, hreply⟩ :=
      (Node.exists_reply_eq_failure_iff hcode hrange).mpr ⟨status, body, hdelivers, hreports⟩
    exact ⟨message, nodeReplies_httpSetup_iff.mpr ⟨raw, hraw, hne, hreply⟩⟩

/-- What a wallet is told of its transaction is true exactly when the node does not reply with a
failure that has the code 0. Of a node behind an address, it is told the code 0 exactly when a
response is delivered that reports text, or an error that says this code. -/
theorem sentTruly_iff_not_failsWith_zero (t : RawTransaction) (s : Backend ν) :
    (∀ u : Setup ν, (SentTruly u t s ↔ ¬ FailsWith u t s 0) ∧
      ∀ code, Tells u t s code ↔ (code = 0 ∧ Accepts u t s) ∨ FailsWith u t s code) ∧
    ∀ (url : String) (post : String → List Json → ν → Delayed Node.Exchange × ν) (c : Config)
      (r : Retrieval.Config),
      (SentTruly (httpSetup url post c r) t s ↔
        ¬ ∃ body, Responds url post t s body ∧ Node.ReportsCode 0 body) ∧
      (Tells (httpSetup url post c r) t s 0 ↔ ∃ body, Responds url post t s body ∧
        (Node.ReportsText body ∨ Node.ReportsCode 0 body)) := by
  have hrange : Node.Int64 0 := by
    unfold Node.Int64
    decide
  refine ⟨fun u => ⟨sentTruly_iff, fun code => tells_iff_replies⟩, fun url post c r => ?_⟩
  rw [sentTruly_iff, tells_zero_iff, accepts_httpSetup_iff,
    failsWith_httpSetup_iff (by decide) hrange]
  refine ⟨Iff.rfl, ?_⟩
  simp only [← exists_or, ← and_or_left]

end Http

def zeroRefusal : Node.Reply :=
  Node.ReplyEnvelope.reply
    ⟨none, some (.object [("code", .integer 0), ("message", .string "not taken")])⟩

def shrugging : Setup Unit := ⟨.ofCall fun _ _ w => ((0, zeroRefusal), w), .default, .default⟩

/-- The wallet is told that its transaction was taken. -/
theorem not_sentTruly_shrugging : ¬ SentTruly shrugging ⟨"00", 0⟩ quietBackend := by
  have hraw : Hex.decode "00" = .ok [0] := by decide
  have hrefusal : zeroRefusal = .error (.failure ⟨0, "not taken"⟩) := rfl
  have hreply : NodeReplies shrugging ⟨"00", 0⟩ quietBackend (.error (.failure ⟨0, "not taken"⟩)) :=
    ⟨[0], hraw, List.cons_ne_nil _ _, hrefusal⟩
  intro h
  obtain ⟨text, haccepts⟩ := h.told.mp (tells_zero_iff.mpr (.inr ⟨_, hreply⟩))
  cases hreply.unique haccepts

end Gateway

end LightServer
