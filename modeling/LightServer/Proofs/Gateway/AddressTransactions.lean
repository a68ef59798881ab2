import LightServer.Proofs.Gateway.Opening
import LightServer.Proofs.Gateway.Requests
import LightServer.Proofs.Json.Members
import LightServer.Proofs.Node.Recording
import LightServer.Proofs.Node.TransactionRecords

/-!
# Transactions of an address

The node is asked once for the hashes of the transactions that touch an address, and then
for the transactions one by one, in the order of the hashes. Each answer makes one
response. The first one that is no transaction is the last, and the node is not asked
for anything after it. An answer that is no list of hashes makes one error, and then the
node is asked for no transaction at all.
-/

namespace LightServer

namespace Node

open Json Outcome

def ListsTxids (reply : Reply) (texts : List String) : Prop :=
  reply = .ok (.array (texts.map .string)) ∧ ∀ t ∈ texts, Hex.AllDigits t ∧ t.length = 64

variable {reply : Reply} {texts : List String} {txids : List Hash}

theorem ListsTxids.unique {texts' : List String} (h : ListsTxids reply texts)
    (h' : ListsTxids reply texts') : texts = texts' := by
  have harray := h.1.symm.trans h'.1
  simp only [Except.ok.injEq, Json.array.injEq] at harray
  exact List.map_injective_iff.mpr (fun s t hst => by cases hst; rfl) harray

/-- Hashes are read from a list of texts, and displayed as these are in lower case. -/
theorem read_addressTxids_eq_ok_iff {addresses : List String} {start stop : Nat} :
    (Query.addressTxids addresses start stop).read reply = .ok txids ↔
      ∃ texts, ListsTxids reply texts ∧
        List.Forall₂ (fun t h => Octets.display h = t.toLower) texts txids := by
  have hread : ∀ v, txidsOfJson v = .ok txids ↔ ∃ texts, ListsTxids (.ok v) texts ∧
      List.Forall₂ (fun t h => Octets.display h = t.toLower) texts txids := by
    intro v
    unfold txidsOfJson ListsTxids
    simp only [bind_eq_ok_iff, decodeAs_eq_ok_iff, Decoder.list_eq_ok_iff, Decoder.string_eq_ok_iff,
      mapM_eq_ok_iff, hashAs_eq_ok_iff, ← and_assoc, List.forall₂_and_left, Except.ok.injEq]
    constructor
    · rintro ⟨texts, ⟨⟨vs, rfl, hvs⟩, hhex⟩, hdisplay⟩
      rw [← List.forall₂_map_right_iff, List.forall₂_eq_eq_eq] at hvs
      exact ⟨texts, ⟨congrArg Json.array hvs, hhex⟩, hdisplay⟩
    · rintro ⟨texts, ⟨rfl, hhex⟩, hdisplay⟩
      refine ⟨texts, ⟨⟨_, rfl, ?_⟩, hhex⟩, hdisplay⟩
      rw [← List.forall₂_map_right_iff, List.forall₂_eq_eq_eq]
  cases reply with
  | error e =>
      refine iff_of_false nofun ?_
      rintro ⟨texts, ⟨⟨⟩, -⟩, -⟩
  | ok v => exact hread v

theorem ListsTxids.exists_display (h : ListsTxids reply texts) :
    ∃ txids : List Hash, List.Forall₂ (fun t h => Octets.display h = t.toLower) texts txids := by
  refine exists_forall₂ fun t ht => ?_
  obtain ⟨hdigits, hlength⟩ := h.2 t ht
  obtain ⟨txid, hdisplay, -⟩ := Octets.exists_display_eq (n := 32) hdigits hlength
  exact ⟨txid, hdisplay⟩

end Node

namespace Gateway

open Node

variable {ν : Type} {call : String → List Json → ν → Delayed Reply × ν}
  {u : Setup (ν × List Consultation)} {e : Envelope} {s : Backend (ν × List Consultation)}
  {id : Option Json} {address : String} {range : BlockRange} {texts : List String}
  {txids : List Hash} {deadline : Nat}

structure AsksTxids (e : Envelope) (address : String) (range : BlockRange) : Prop where
  method : e.method = "GetAddressTxids"
  param : param AddressFilter.decoder e.params 0 = .ok ⟨address, range⟩
  valid : LooksTransparent address

def txidsCall (address : String) (range : BlockRange) (reply : Reply) : Consultation where
  method := "getaddresstxids"
  params := [.object [("addresses", .array [.string address]),
    ("end", .nat range.stop.height), ("start", .nat range.start.height)]]
  reply := reply

theorem params_addressTxids (address : String) (start stop : Nat) :
    (Query.addressTxids [address] start stop).params = [.object [
      ("addresses", .array [.string address]), ("end", .nat stop), ("start", .nat start)]] := by
  simp (disch := decide) only [Query.addressTxids, Json.ofMembers, List.foldl_cons, List.foldl_nil,
    Json.insertMember, Json.listOf, List.map_cons, List.map_nil, if_pos, if_neg]

def lookupCall (txid : String) (reply : Reply) : Consultation :=
  ⟨"getrawtransaction", [.string txid, .nat 1], reply⟩

def told (txid : String) : Reply → Except ApiError Json
  | .ok v =>
      match TransactionInfo.ofJson v with
      | .ok t => .ok (RawTransaction.ofInfo t).toJson
      | .error e => .error (.ofNode e)
  | .error (.failure f) =>
      if f.NotFound then .error (.resourceNotFound ("transaction " ++ txid))
      else .error (.ofNode (.failure f))
  | .error e => .error (.ofNode e)

/-- The value is the record that a wallet gets of a transaction: its text in lower case, and the
height of its block, or 0 if there is none. -/
structure ShowsTransaction (text : String) (height : Option Int) (v : Json) : Prop where
  data : v.get? "data" = some (.string text.toLower)
  height : v.get? "height" = some (.nat (height.getD 0).toNat)

/-- The calls for the transactions of a list, and the responses to the answers. An answer that is a
transaction makes a response that shows it, and the first one that is none makes the last one,
which is an error. -/
inductive LookedUp (id : Option Json) : List String → List Consultation → List Json → Prop where
  | nil : LookedUp id [] [] []
  | found {text hex : String} {height : Option Int} {reply : Reply} {v out : Json}
      {texts : List String} {calls : List Consultation} {lines : List Json}
      (finds : FindsTransaction reply hex height) (result : IsResult (id.getD .null) v out)
      (shows : ShowsTransaction hex height v) (rest : LookedUp id texts calls lines) :
      LookedUp id (text :: texts) (lookupCall text.toLower reply :: calls) (out :: lines)
  | failed {text : String} {reply : Reply} {err : ApiError} {texts : List String}
      (lost : ¬ ∃ hex height, FindsTransaction reply hex height)
      (told : told text.toLower reply = .error err)
      (fault : IsFault (id.getD .null) err.code (errorResponse id err)) :
      LookedUp id (text :: texts) [lookupCall text.toLower reply] [errorResponse id err]

theorem showsTransaction_toJson {t : TransactionInfo} {hex : String} {height : Option Int}
    (h : t.Tells hex height) : ShowsTransaction hex height (RawTransaction.ofInfo t).toJson := by
  have hkeys : ["data", "height"].Nodup := by decide
  constructor
  · rw [← h.data]
    exact Json.get?_ofMembers hkeys List.mem_cons_self
  · rw [← h.height]
    exact Json.get?_ofMembers hkeys (List.mem_cons_of_mem _ List.mem_cons_self)

theorem exists_finds_of_told {txid : String} {reply : Reply} {v : Json}
    (h : told txid reply = .ok v) : ∃ hex height, FindsTransaction reply hex height ∧
      ShowsTransaction hex height v := by
  unfold told at h
  split at h
  · split at h
    next t ht =>
      cases h
      obtain ⟨hex, height, hfinds, htells⟩ := exists_tells_of_ofJson ht
      exact ⟨hex, height, hfinds, showsTransaction_toJson htells⟩
    next => cases h
  · split at h <;> cases h
  · cases h

theorem not_finds_of_told {txid : String} {reply : Reply} {err : ApiError}
    (h : told txid reply = .error err) : ¬ ∃ hex height, FindsTransaction reply hex height := by
  rintro ⟨hex, height, hfinds⟩
  obtain ⟨v, rfl, -⟩ := id hfinds
  obtain ⟨t, ht⟩ := hfinds.exists_ofJson
  rw [told, ht] at h
  cases h

theorem foundTransaction_read (h : Hash) (txid : String) (reply : Reply) :
    foundTransaction txid ((Query.transaction h).read reply) = told txid reply := by
  cases reply with
  | ok v =>
      have hok : (Query.transaction h).read (.ok v) = (TransactionInfo.ofJson v).map some := rfl
      rw [hok, told]
      cases TransactionInfo.ofJson v <;> rfl
  | error e =>
      cases e with
      | failure f =>
          have herror : (Query.transaction h).read (.error (.failure f)) =
              if f.NotFound then .ok none else .error (.failure f) := rfl
          rw [herror, told]
          by_cases hunknown : f.NotFound
          · rw [if_pos hunknown, if_pos hunknown, foundTransaction]
          · rw [if_neg hunknown, if_neg hunknown, foundTransaction]
      | _ => rfl

/-- A lookup is one call, and gives what the wallet is told for its answer, if that is not late. -/
theorem exists_lookUp_recording (hcall : u.node.call = recording call) (deadline : Nat)
    (txid : Hash) (s : Backend (ν × List Consultation)) :
    ∃ reply, (lookUp u deadline txid s).2.world.2 = s.world.2 ++ [lookupCall txid.display reply] ∧
      ((lookUp u deadline txid s).1 = told txid.display reply ∨
        (lookUp u deadline txid s).1 = .error (.timeout "GetAddressTxids")) := by
  obtain ⟨reply, hlog, hheard⟩ :=
    exists_askBy_recording hcall (some deadline) (Query.transaction txid) s
  have hgiven : (lookUp u deadline txid s).1 =
      (inTime "GetAddressTxids" (s.askBy u.node (some deadline) (.transaction txid)).1).bind
        fun t => foundTransaction txid.display (.ok t) := rfl
  refine ⟨reply, hlog, ?_⟩
  rw [hgiven]
  rcases hheard with hheard | hheard
  · rw [hheard, ← foundTransaction_read txid]
    left
    cases (Query.transaction txid).read reply <;> rfl
  · rw [hheard]
    exact .inr rfl

theorem lookUpAll_of_ok {txid : Hash} {v : Json} {s₁ : Backend (ν × List Consultation)}
    (h : lookUp u deadline txid s = (.ok v, s₁)) : lookUpAll u deadline (txid :: txids) s =
      (.ok v :: (lookUpAll u deadline txids s₁).1, (lookUpAll u deadline txids s₁).2) := by
  rw [lookUpAll, h]

theorem lookUpAll_of_error {txid : Hash} {err : ApiError} {s₁ : Backend (ν × List Consultation)}
    (h : lookUp u deadline txid s = (.error err, s₁)) :
    lookUpAll u deadline (txid :: txids) s = ([.error err], s₁) := by
  rw [lookUpAll, h]

/-- Transactions are looked up one by one. -/
theorem lookedUp_of_lookUpAll (hcall : u.node.call = recording call)
    (htxids : List.Forall₂ (fun t h => Octets.display h = t.toLower) texts txids)
    (htimely : errorResponse id (.timeout "GetAddressTxids") ∉
      (lookUpAll u deadline txids s).1.map (response id)) :
    ∃ calls, (lookUpAll u deadline txids s).2.world.2 = s.world.2 ++ calls ∧
      LookedUp id texts calls ((lookUpAll u deadline txids s).1.map (response id)) := by
  induction htxids generalizing s with
  | nil => exact ⟨[], (List.append_nil _).symm, .nil⟩
  | @cons text txid texts txids htext _ ih =>
      obtain ⟨reply, hlog, hgiven⟩ := exists_lookUp_recording hcall deadline txid s
      rw [htext] at hlog hgiven
      rcases hlook : lookUp u deadline txid s with ⟨err | v, s₁⟩
      · rw [hlook] at hlog hgiven
        rw [lookUpAll_of_error hlook] at htimely ⊢
        rcases hgiven with htold | hlate
        · exact ⟨_, hlog, .failed (not_finds_of_told htold.symm) htold.symm
            (isFault_errorResponse id err)⟩
        · cases hlate
          exact absurd (List.mem_singleton.mpr rfl) htimely
      · rw [hlook] at hlog hgiven
        rw [lookUpAll_of_ok hlook] at htimely ⊢
        obtain ⟨calls, hcalls, hrest⟩ := ih fun hmem => htimely (List.mem_cons_of_mem _ hmem)
        rcases hgiven with htold | ⟨⟨⟩⟩
        obtain ⟨hex, height, hfinds, hshows⟩ := exists_finds_of_told htold.symm
        refine ⟨_ :: calls, ?_, .found hfinds (isResult_resultResponse id v) hshows hrest⟩
        rw [hcalls, hlog, List.append_assoc, List.singleton_append]

theorem openItems_of_asksTxids (h : AsksTxids e address range) :
    openItems u e.method e.params s =
      ((inTime "GetAddressTxids" (s.askBy u.node (some (streamDeadline u s))
          (.addressTxids [address] range.start.height range.stop.height)).1).map
            (.transactions · (streamDeadline u s)),
        (s.askBy u.node (some (streamDeadline u s))
          (.addressTxids [address] range.start.height range.stop.height)).2) := by
  have hname : Method.ofName? "GetAddressTxids" = some .getAddressTxids := rfl
  have hvalid : validateAddress address = .ok () := if_pos h.valid
  unfold openItems onParam
  rw [h.method, hname]
  simp only [h.param, openTxids, hvalid]

/-- If no answer comes too late, the node is asked for the hashes of an address once. If it lists
them, the transactions are looked up one by one, and otherwise there is one error and no call. -/
theorem streamEnvelope_getAddressTxids (hcall : u.node.call = recording call)
    (h : AsksTxids e address range) (s : Backend (ν × List Consultation))
    (htimely : errorResponse e.id (.timeout "GetAddressTxids") ∉ (streamEnvelope u e s).1) :
    ∃ reply calls,
      (streamEnvelope u e s).2.world.2 = s.world.2 ++ txidsCall address range reply :: calls ∧
      (∀ texts, ListsTxids reply texts → LookedUp e.id texts calls (streamEnvelope u e s).1) ∧
      ((¬ ∃ texts, ListsTxids reply texts) →
        calls = [] ∧ ∃ code out, (streamEnvelope u e s).1 = [out] ∧
          IsFault (e.id.getD .null) code out) := by
  have hopen := openItems_of_asksTxids (u := u) (s := s) h
  let q := Query.addressTxids [address] range.start.height range.stop.height
  obtain ⟨reply, hlog, hheard⟩ := exists_askBy_recording hcall (some (streamDeadline u s)) q s
  rw [params_addressTxids] at hlog
  generalize s.askBy u.node (some (streamDeadline u s)) q = asked at hopen hlog hheard
  rcases hheard with hheard | hheard
  · cases hread : q.read reply with
    | ok txids =>
        obtain ⟨texts, hlists, hdisplay⟩ := read_addressTxids_eq_ok_iff.mp hread
        rw [hheard, hread] at hopen
        rw [streamEnvelope_of_opened hopen] at htimely ⊢
        obtain ⟨calls, hcalls, hlooked⟩ := lookedUp_of_lookUpAll hcall hdisplay htimely
        rw [world_countRequest, hlog] at hcalls
        refine ⟨reply, calls, ?_, fun texts' hlists' => ?_, fun hnone => absurd ⟨_, hlists⟩ hnone⟩
        · exact hcalls.trans (List.append_assoc _ _ _)
        · rw [hlists'.unique hlists]
          exact hlooked
    | error err =>
        rw [hheard, hread] at hopen
        rw [streamEnvelope_of_refused hopen]
        refine ⟨reply, [], ?_, fun texts hlists => ?_,
          fun _ => ⟨rfl, _, _, rfl, isFault_errorResponse e.id _⟩⟩
        · rw [world_countRequest]
          exact hlog
        · obtain ⟨txids, hdisplay⟩ := hlists.exists_display
          rw [read_addressTxids_eq_ok_iff.mpr ⟨texts, hlists, hdisplay⟩] at hread
          cases hread
  · rw [hheard] at hopen
    rw [streamEnvelope_of_refused hopen] at htimely
    exact absurd (List.mem_singleton.mpr rfl) htimely

/-- The lookup of a transaction that is answered at once. -/
theorem lookUp_of_instant (txid : Hash) (reply : Reply) (world : ν × List Consultation)
    (h : u.node.call "getrawtransaction" [.string txid.display, .nat 1] s.world =
      ((0, reply), world)) (deadline : Nat) :
    lookUp u deadline txid s = (told txid.display reply, { s with world }) := by
  unfold lookUp
  rw [Backend.askBy_of_instant (q := .transaction txid) h, ← foundTransaction_read txid]
  cases (Query.transaction txid).read reply <;> rfl

def plainTxid (c : Char) : String := String.ofList (List.replicate 64 c)

def threeTxids : List String := [plainTxid 'A', plainTxid 'b', plainTxid 'C']

def someTransaction : Json := .object [("height", .nat 7), ("hex", .string "00FF")]

def unknownTransaction : Reply := .error (.failure ⟨-5, "No such transaction"⟩)

def forgetful : String → List Json → Nat → Delayed Reply × Nat
  | "getaddresstxids", _, known => ((0, .ok (.array (threeTxids.map .string))), known)
  | _, _, 0 => ((0, unknownTransaction), 0)
  | _, _, known + 1 => ((0, .ok someTransaction), known)

def forgetfulSetup : Setup (Nat × List Consultation) :=
  ⟨.ofCall (recording forgetful), .default, .default⟩

def forgetfulBackend : Backend (Nat × List Consultation) := ⟨(1, []), .empty .standard 100, {}, 0⟩

def touchedAddress : String := "t1VmmGiyjVNeCjxDZzg7vZmd99WyzVby9yC"

def someRange : BlockRange := ⟨.atHeight 3, .atHeight 9⟩

def txidsRequest : Envelope where
  id := some (.nat 1)
  method := "GetAddressTxids"
  params := some (.array [.object [("address", .string touchedAddress),
    ("range", .object [("end", .object [("height", .nat 9)]),
      ("start", .object [("height", .nat 3)])])]])

theorem asksTxids_txidsRequest : AsksTxids txidsRequest touchedAddress someRange :=
  ⟨rfl, rfl, by decide +kernel⟩

theorem listsTxids_threeTxids : ListsTxids (.ok (.array (threeTxids.map .string))) threeTxids :=
  ⟨rfl, by decide +kernel⟩

theorem told_someTransaction (txid : String) :
    told txid (.ok someTransaction) = .ok (RawTransaction.toJson ⟨"00ff", 7⟩) := by
  have hread : TransactionInfo.ofJson someTransaction = .ok ⟨[0, 255], some 7⟩ := by decide +kernel
  rw [told, hread]
  rfl

theorem told_unknownTransaction (txid : String) :
    told txid unknownTransaction = .error (.resourceNotFound ("transaction " ++ txid)) := rfl

/-- While it has one transaction left, the node is asked for two of a list. -/
theorem exists_lookUpAll_forgetful (deadline : Nat) (first second : Hash) (rest : List Hash)
    {s : Backend (Nat × List Consultation)} (hleft : s.world.1 = 1) : ∃ s',
    lookUpAll forgetfulSetup deadline (first :: second :: rest) s =
      ([.ok (RawTransaction.toJson ⟨"00ff", 7⟩),
        .error (.resourceNotFound ("transaction " ++ second.display))], s') ∧
    s'.world.2 = s.world.2 ++ [lookupCall first.display (.ok someTransaction),
      lookupCall second.display unknownTransaction] := by
  obtain ⟨⟨left, log⟩, cache, metrics, now⟩ := s
  obtain rfl : left = 1 := hleft
  have hfirst := lookUp_of_instant (u := forgetfulSetup) (s := ⟨(1, log), cache, metrics, now⟩)
    first (.ok someTransaction) (0, log ++ [lookupCall first.display (.ok someTransaction)]) rfl
    deadline
  have hsecond := lookUp_of_instant (u := forgetfulSetup)
    (s := ⟨(0, log ++ [lookupCall first.display (.ok someTransaction)]), cache, metrics, now⟩)
    second unknownTransaction (0, log ++ [lookupCall first.display (.ok someTransaction)] ++
      [lookupCall second.display unknownTransaction]) rfl deadline
  rw [told_someTransaction] at hfirst
  rw [told_unknownTransaction] at hsecond
  rw [lookUpAll_of_ok hfirst, lookUpAll_of_error hsecond]
  exact ⟨_, rfl, List.append_assoc _ _ _⟩

/-- The run of that request: of the three transactions the node is asked for two. -/
theorem exists_streamEnvelope_txidsRequest : ∃ s',
    streamEnvelope forgetfulSetup txidsRequest forgetfulBackend =
      ([resultResponse (some (.nat 1)) (RawTransaction.toJson ⟨"00ff", 7⟩),
        errorResponse (some (.nat 1)) (.resourceNotFound ("transaction " ++ plainTxid 'b'))], s') ∧
    s'.world.2 = [txidsCall touchedAddress someRange
        (.ok (.array (threeTxids.map .string))),
      lookupCall (plainTxid 'a') (.ok someTransaction),
      lookupCall (plainTxid 'b') unknownTransaction] := by
  have hopen := openItems_of_asksTxids (u := forgetfulSetup) (s := forgetfulBackend)
    asksTxids_txidsRequest
  obtain ⟨txids, hdisplay⟩ := listsTxids_threeTxids.exists_display
  have hread : (Query.addressTxids [touchedAddress] someRange.start.height
      someRange.stop.height).read (.ok (.array (threeTxids.map .string))) = .ok txids :=
    read_addressTxids_eq_ok_iff.mpr ⟨_, listsTxids_threeTxids, hdisplay⟩
  obtain ⟨first, _, hfirst, hrest, rfl⟩ := List.forall₂_cons_left_iff.mp hdisplay
  obtain ⟨second, rest, hsecond, -, rfl⟩ := List.forall₂_cons_left_iff.mp hrest
  have hlower : (plainTxid 'A').toLower = plainTxid 'a' := by decide +kernel
  have hlower' : (plainTxid 'b').toLower = plainTxid 'b' := by decide +kernel
  rw [hlower] at hfirst
  rw [hlower'] at hsecond
  obtain ⟨s₁, hasked, hworld⟩ : ∃ s₁ : Backend (Nat × List Consultation),
      forgetfulBackend.askBy forgetfulSetup.node
          (some (streamDeadline forgetfulSetup forgetfulBackend))
          (.addressTxids [touchedAddress] someRange.start.height someRange.stop.height) =
        (some (.ok (first :: second :: rest)), s₁) ∧
      s₁.world =
        (1, [txidsCall touchedAddress someRange (.ok (.array (threeTxids.map .string)))]) := by
    rw [← hread]
    exact ⟨_, Backend.askBy_of_instant rfl _, rfl⟩
  rw [hasked] at hopen
  rw [streamEnvelope_of_opened hopen]
  obtain ⟨s', hlooked, hlog⟩ := exists_lookUpAll_forgetful
    (streamDeadline forgetfulSetup forgetfulBackend) first second rest
    (s := countRequest txidsRequest.method "ok" s₁) (by rw [world_countRequest, hworld])
  simp only [Items.read]
  rw [hlooked, hsecond]
  refine ⟨s', rfl, ?_⟩
  rw [hlog, world_countRequest, hworld, hfirst, hsecond]
  rfl

/-- That request is answered with the first transaction and the error for the second, and the node
is not asked for the third. -/
theorem streamEnvelope_getAddressTxids_of_forgetful :
    forgetfulSetup.node.call = recording forgetful ∧
    AsksTxids txidsRequest touchedAddress someRange ∧
    errorResponse txidsRequest.id (.timeout "GetAddressTxids") ∉
      (streamEnvelope forgetfulSetup txidsRequest forgetfulBackend).1 ∧
    ∃ calls, (streamEnvelope forgetfulSetup txidsRequest forgetfulBackend).2.world.2 =
        txidsCall touchedAddress someRange (.ok (.array (threeTxids.map .string))) :: calls ∧
      calls.length = 2 ∧
      LookedUp txidsRequest.id threeTxids calls
        (streamEnvelope forgetfulSetup txidsRequest forgetfulBackend).1 := by
  obtain ⟨s', hrun, hlog⟩ := exists_streamEnvelope_txidsRequest
  have htimely : errorResponse txidsRequest.id (.timeout "GetAddressTxids") ∉
      (streamEnvelope forgetfulSetup txidsRequest forgetfulBackend).1 := by
    rw [hrun]
    intro hmem
    rcases List.mem_cons.mp hmem with hresult | hmem
    · exact errorResponse_ne_resultResponse _ _ _ hresult
    · have hcode := code_eq_of_errorResponse_eq (List.mem_singleton.mp hmem)
      exact absurd hcode (by decide)
  have hcall : forgetfulSetup.node.call = recording forgetful := rfl
  obtain ⟨reply, calls, hcalls, hlists, -⟩ :=
    streamEnvelope_getAddressTxids hcall asksTxids_txidsRequest forgetfulBackend htimely
  have hall := hcalls
  rw [hrun, hlog] at hall
  obtain ⟨hlisted, hrest⟩ := List.cons.inj hall
  obtain rfl : _ = reply := congrArg Consultation.reply hlisted
  exact ⟨hcall, asksTxids_txidsRequest, htimely, calls, hcalls, by rw [← hrest]; rfl,
    hlists _ listsTxids_threeTxids⟩

end Gateway

end LightServer
