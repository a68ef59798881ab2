import LightServer.Proofs.Gateway.AddressTransactions
import LightServer.Proofs.Gateway.UnspentOutputs

/-!
# Which addresses the node is asked about

A transparent address is a `t` and 34 characters of an alphabet that leaves out the digit
zero and three letters, since these are easily mistaken for others. Only letters and digits
are looked for, so the node is asked about a text with one of the four as well. Otherwise
the check is exact: the node is asked about every address, and a text that is not made of
a `t` and 34 letters and digits is refused before the node is asked for anything. Its bytes
are counted and not its characters, which makes no difference, since letters and digits
are single bytes.
-/

namespace LightServer.Gateway

open Node

/-- The characters that addresses are not made of, though they are letters and digits. -/
def mistakable : List Char := ['0', 'O', 'I', 'l']

def IsBase58 (c : Char) : Prop := c.isAlphanum = true ∧ c ∉ mistakable

def SpelledBy (P : Char → Prop) (s : String) : Prop :=
  ∃ cs, s.toList = 't' :: cs ∧ cs.length = 34 ∧ ∀ c ∈ cs, P c

def IsAddress (s : String) : Prop := SpelledBy IsBase58 s

def IsLooseAddress (s : String) : Prop := SpelledBy (fun c => c.isAlphanum = true) s

/-- The text is not an address only because of a character that could be mistaken. -/
def IsMistakable (s : String) : Prop := IsLooseAddress s ∧ ∃ c ∈ mistakable, c ∈ s.toList

section Spelling

variable {s address : String} {c : Char} {cs : List Char}

theorem lt_of_isAlphanum (h : c.isAlphanum = true) : c.toNat < 128 := by
  have hranges : (decide ('A'.val ≤ c.val ∧ c.val ≤ 'Z'.val) ||
      (decide ('a'.val ≤ c.val) && decide (c.val ≤ 'z'.val)) ||
      (decide ('0'.val ≤ c.val) && decide (c.val ≤ '9'.val))) = true := h
  simp only [Bool.or_eq_true, Bool.and_eq_true, decide_eq_true_eq,
    UInt32.le_iff_toNat_le] at hranges
  have hval : c.toNat = c.val.toNat := rfl
  have hZ : 'Z'.val.toNat = 90 := rfl
  have hz : 'z'.val.toNat = 122 := rfl
  have h9 : '9'.val.toNat = 57 := rfl
  omega

theorem utf8ByteSize_of_isAlphanum (h : ∀ c ∈ cs, c.isAlphanum = true) :
    (String.ofList cs).utf8ByteSize = cs.length := by
  induction cs with
  | nil => rfl
  | cons c cs ih =>
      obtain ⟨hc, hcs⟩ := List.forall_mem_cons.mp h
      have hone : c.utf8Size = 1 :=
        Char.utf8Size_eq_one_iff.mpr (Nat.le_of_lt_succ (lt_of_isAlphanum hc))
      have hsplit : String.ofList (c :: cs) = String.singleton c ++ String.ofList cs := by
        rw [String.singleton_eq_ofList, ← String.ofList_append]
        rfl
      rw [hsplit, String.utf8ByteSize_append, String.utf8ByteSize_singleton, ih hcs, hone,
        List.length_cons, Nat.add_comm]

theorem looksTransparent_iff : LooksTransparent s ↔ IsLooseAddress s := by
  unfold LooksTransparent IsLooseAddress SpelledBy addressLength
  constructor
  · rintro ⟨hsize, hhead, hall⟩
    rw [List.all_eq_true] at hall
    obtain ⟨cs, hcs⟩ : ∃ cs, s.toList = 't' :: cs := List.head?_eq_some_iff.mp hhead
    have hlength := utf8ByteSize_of_isAlphanum hall
    rw [String.ofList_toList, hsize, hcs, List.length_cons] at hlength
    refine ⟨cs, hcs, by omega, fun c hc => hall c ?_⟩
    rw [hcs]
    exact List.mem_cons_of_mem _ hc
  · rintro ⟨cs, hcs, hlength, hall⟩
    have hall' : ∀ c ∈ s.toList, c.isAlphanum = true := by
      rw [hcs]
      exact List.forall_mem_cons.mpr ⟨rfl, hall⟩
    have hsize := utf8ByteSize_of_isAlphanum hall'
    rw [String.ofList_toList, hcs, List.length_cons, hlength] at hsize
    exact ⟨hsize, by rw [hcs]; rfl, List.all_eq_true.mpr hall'⟩

/-- A text of the right length and made of letters and digits is an address or mistakable. -/
theorem isAddress_iff : IsAddress s ↔ IsLooseAddress s ∧ ¬ IsMistakable s := by
  constructor
  · rintro ⟨cs, hcs, hlength, hall⟩
    refine ⟨⟨cs, hcs, hlength, fun c hc => (hall c hc).1⟩, ?_⟩
    rintro ⟨-, c, hbad, hc⟩
    rw [hcs] at hc
    rcases List.mem_cons.mp hc with rfl | hc
    · revert hbad
      decide
    · exact (hall c hc).2 hbad
  · rintro ⟨⟨cs, hcs, hlength, hall⟩, hplain⟩
    refine ⟨cs, hcs, hlength, fun c hc => ⟨hall c hc, fun hbad => hplain ?_⟩⟩
    refine ⟨⟨cs, hcs, hlength, hall⟩, c, hbad, ?_⟩
    rw [hcs]
    exact List.mem_cons_of_mem _ hc

end Spelling

inductive AsksAbout (e : Envelope) (address : String) : Prop where
  | utxos (hmethod : e.method = "GetUtxos")
      (hparam : param TransparentAddress.decoder e.params 0 = .ok ⟨address⟩)
  | txids (range : BlockRange) (hmethod : e.method = "GetAddressTxids")
      (hparam : param AddressFilter.decoder e.params 0 = .ok ⟨address, range⟩)

variable {ν : Type} {u : Setup ν} {e : Envelope} {s : Backend ν} {address : String}

/-- The request is answered with one line, the error that a parameter is wrong, and nothing happens
at the node. -/
structure Refused (u : Setup ν) (e : Envelope) (s : Backend ν) : Prop where
  answer : ∃ err : ApiError, err.code = ApiError.invalidParamsCode ∧
    (streamEnvelope u e s).1 = [errorResponse e.id err]
  fault : ∃ out, (streamEnvelope u e s).1 = [out] ∧ IsFault (e.id.getD .null) (-32602) out
  world : (streamEnvelope u e s).2.world = s.world

theorem openItems_of_not_looksTransparent (h : AsksAbout e address)
    (hbad : ¬ LooksTransparent address) : openItems u e.method e.params s =
      (.error (.invalidParams ("invalid transparent address: " ++ address)), s) := by
  have hcheck : validateAddress address =
      .error (.invalidParams ("invalid transparent address: " ++ address)) := if_neg hbad
  cases h with
  | utxos hmethod hparam =>
      have hname : Method.ofName? "GetUtxos" = some .getUtxos := rfl
      unfold openItems onParam
      rw [hmethod, hname]
      simp only [hparam, openUtxos, hcheck]
  | txids range hmethod hparam =>
      have hname : Method.ofName? "GetAddressTxids" = some .getAddressTxids := rfl
      unfold openItems onParam
      rw [hmethod, hname]
      simp only [hparam, openTxids, hcheck]

theorem refused_of_not_looksTransparent (h : AsksAbout e address)
    (hbad : ¬ LooksTransparent address) (s : Backend ν) : Refused u e s := by
  have hopen := openItems_of_not_looksTransparent (u := u) (s := s) h hbad
  have hanswer := congrArg Prod.fst (streamEnvelope_of_refused hopen)
  refine ⟨⟨_, rfl, hanswer⟩, ⟨_, hanswer, isFault_errorResponse e.id _⟩, ?_⟩
  rw [streamEnvelope_of_refused hopen]
  exact world_countRequest _ _ _

section Recording

variable {call : String → List Json → ν → Delayed Reply × ν}
  {u : Setup (ν × List Consultation)} {s : Backend (ν × List Consultation)}

def NamesAddress (c : Consultation) (address : String) : Prop :=
  ∃ v, c.params = [v] ∧ v.get? "addresses" = some (.array [.string address])

/-- The node is asked about the address before anything else. -/
def NodeAsked (u : Setup (ν × List Consultation)) (e : Envelope) (address : String)
    (s : Backend (ν × List Consultation)) : Prop :=
  ∃ c calls, (streamEnvelope u e s).2.world.2 = s.world.2 ++ c :: calls ∧ NamesAddress c address

/-- The node is asked exactly about transparent addresses, and everything else is refused. -/
structure ChecksAddress (u : Setup (ν × List Consultation)) (e : Envelope) (address : String)
    (s : Backend (ν × List Consultation)) : Prop where
  asked_iff : NodeAsked u e address s ↔ IsAddress address
  refused : ¬ IsAddress address → Refused u e s

theorem exists_calls_lookUpAll (hcall : u.node.call = recording call) (deadline : Nat)
    (txids : List Hash) (s : Backend (ν × List Consultation)) : ∃ calls,
      (lookUpAll u deadline txids s).2.world.2 = s.world.2 ++ calls := by
  induction txids generalizing s with
  | nil => exact ⟨[], (List.append_nil _).symm⟩
  | cons txid txids ih =>
      obtain ⟨reply, hlog, -⟩ := exists_lookUp_recording hcall deadline txid s
      rcases hlook : lookUp u deadline txid s with ⟨err | v, s₁⟩
      · rw [hlook] at hlog
        rw [lookUpAll_of_error hlook]
        exact ⟨_, hlog⟩
      · rw [hlook] at hlog
        rw [lookUpAll_of_ok hlook]
        obtain ⟨calls, hcalls⟩ := ih s₁
        exact ⟨_, by rw [hcalls, hlog, List.append_assoc]⟩

/-- Whatever an opened method about an address asks for comes after the call that opened it. -/
theorem nodeAsked_of_openItems {s₁ : Backend (ν × List Consultation)} {c : Consultation}
    {given : Except ApiError Items} (hcall : u.node.call = recording call)
    (hopen : openItems u e.method e.params s = (given, s₁))
    (hitems : ∀ items, given = .ok items → (∃ vs, items = .values vs) ∨
      ∃ txids deadline, items = .transactions txids deadline)
    (hlog : s₁.world.2 = s.world.2 ++ [c]) (hnames : NamesAddress c address) :
    NodeAsked u e address s := by
  cases given with
  | error err =>
      refine ⟨c, [], ?_, hnames⟩
      rw [streamEnvelope_of_refused hopen, world_countRequest, hlog]
  | ok items =>
      unfold NodeAsked
      rw [streamEnvelope_of_opened hopen]
      rcases hitems items rfl with ⟨vs, rfl⟩ | ⟨txids, deadline, rfl⟩
      · refine ⟨c, [], ?_, hnames⟩
        rw [Items.read, world_countRequest, hlog]
      · obtain ⟨calls, hcalls⟩ := exists_calls_lookUpAll hcall deadline txids
          (countRequest e.method "ok" s₁)
        rw [world_countRequest, hlog, List.append_assoc] at hcalls
        exact ⟨c, calls, hcalls, hnames⟩

theorem nodeAsked_of_looksTransparent (hcall : u.node.call = recording call)
    (h : AsksAbout e address) (hvalid : LooksTransparent address) : NodeAsked u e address s := by
  cases h with
  | utxos hmethod hparam =>
      have hopen := openItems_of_asksUtxos (u := u) (s := s) ⟨hmethod, hparam, hvalid⟩
      obtain ⟨reply, hlog, -⟩ := exists_askBy_recording hcall (some (streamDeadline u s))
        (Query.addressUtxos address) s
      refine nodeAsked_of_openItems hcall hopen (fun items hitems => .inl ?_) hlog ?_
      · obtain ⟨ys, -, rfl⟩ := Outcome.map_eq_ok_iff.mp hitems
        exact ⟨_, rfl⟩
      · exact ⟨_, rfl, rfl⟩
  | txids range hmethod hparam =>
      have hopen := openItems_of_asksTxids (u := u) (s := s) ⟨hmethod, hparam, hvalid⟩
      obtain ⟨reply, hlog, -⟩ := exists_askBy_recording hcall (some (streamDeadline u s))
        (Query.addressTxids [address] range.start.height range.stop.height) s
      refine nodeAsked_of_openItems hcall hopen (fun items hitems => .inr ?_) hlog ?_
      · obtain ⟨ys, -, rfl⟩ := Outcome.map_eq_ok_iff.mp hitems
        exact ⟨_, _, rfl⟩
      · have hkeys : ["addresses", "start", "end"].Nodup := by decide
        exact ⟨_, rfl, Json.get?_ofMembers hkeys List.mem_cons_self⟩

theorem nodeAsked_iff (hcall : u.node.call = recording call) (h : AsksAbout e address)
    (s : Backend (ν × List Consultation)) : NodeAsked u e address s ↔ IsLooseAddress address := by
  rw [← looksTransparent_iff]
  constructor
  · rintro ⟨c, calls, hlog, -⟩
    refine Decidable.byContradiction fun hbad => ?_
    rw [(refused_of_not_looksTransparent h hbad s).world] at hlog
    exact absurd (List.append_right_eq_self.mp hlog.symm) (List.cons_ne_nil _ _)
  · exact nodeAsked_of_looksTransparent hcall h

theorem checksAddress_iff (hcall : u.node.call = recording call) (h : AsksAbout e address)
    (s : Backend (ν × List Consultation)) :
    ChecksAddress u e address s ↔ ¬ IsMistakable address := by
  have hasked := nodeAsked_iff hcall h s
  constructor
  · intro hchecks hbad
    exact (isAddress_iff.mp (hchecks.asked_iff.mp (hasked.mpr hbad.1))).2 hbad
  · intro hplain
    have hexact : IsAddress address ↔ IsLooseAddress address := by
      rw [isAddress_iff]
      exact and_iff_left hplain
    refine ⟨hasked.trans hexact.symm, fun hbad => refused_of_not_looksTransparent h ?_ s⟩
    rw [looksTransparent_iff, ← hexact]
    exact hbad

/-- Of all texts, the check of addresses goes wrong exactly with those that could be mistaken for an
address. The node is asked about a text that is a `t` with 34 letters and digits after it, and any
other text is refused. -/
theorem checksAddress_iff_not_isMistakable (hcall : u.node.call = recording call)
    (h : AsksAbout e address) (s : Backend (ν × List Consultation)) :
    (ChecksAddress u e address s ↔ ¬ IsMistakable address) ∧
    (NodeAsked u e address s ↔ IsLooseAddress address) ∧
    (¬ IsLooseAddress address → Refused u e s) := by
  refine ⟨checksAddress_iff hcall h s, nodeAsked_iff hcall h s, fun hbad => ?_⟩
  refine refused_of_not_looksTransparent h ?_ s
  rwa [looksTransparent_iff]

end Recording

def barren (_ : String) (_ : List Json) (w : Unit) : Delayed Reply × Unit :=
  ((0, .ok (.array [])), w)

def barrenSetup : Setup (Unit × List Consultation) :=
  ⟨.ofCall (recording barren), .default, .default⟩

theorem call_barrenSetup : barrenSetup.node.call = recording barren := rfl

def barrenBackend : Backend (Unit × List Consultation) := ⟨((), []), .empty .standard 100, {}, 0⟩

def utxosOf (address : String) : Envelope where
  id := some (.nat 1)
  method := "GetUtxos"
  params := some (.array [.object [("address", .string address)]])

theorem asksAbout_utxosOf (address : String) : AsksAbout (utxosOf address) address :=
  .utxos rfl rfl

def mistakenAddress : String := "t1VmmGiyjVNeCjxDZzg7vZmd99WyzVby9y0"

/-- The node is asked about that text, though it is no address. -/
theorem not_checksAddress_of_mistakenAddress :
    ¬ ChecksAddress barrenSetup (utxosOf mistakenAddress) mistakenAddress barrenBackend := by
  rw [checksAddress_iff call_barrenSetup (asksAbout_utxosOf mistakenAddress), not_not]
  have hloose : LooksTransparent mistakenAddress := by decide +kernel
  exact ⟨looksTransparent_iff.mp hloose, '0', by decide, by decide +kernel⟩

/-- A text of 35 bytes that is made of 34 letters. -/
def accentedAddress : String := "t1VmmGiyjVNeCjxDZzg7vZmd99WyzVby9é"

/-- That text is refused, though it has as many bytes as an address. -/
theorem checksAddress_iff_not_isMistakable_of_accentedAddress :
    accentedAddress.utf8ByteSize = 35 ∧
    barrenSetup.node.call = recording barren ∧
    AsksAbout (utxosOf accentedAddress) accentedAddress ∧
    ChecksAddress barrenSetup (utxosOf accentedAddress) accentedAddress barrenBackend ∧
    Refused barrenSetup (utxosOf accentedAddress) barrenBackend := by
  have hasks := asksAbout_utxosOf accentedAddress
  have hloose : ¬ IsLooseAddress accentedAddress := by
    rw [← looksTransparent_iff]
    decide +kernel
  obtain ⟨hchecks, -, hrefused⟩ :=
    checksAddress_iff_not_isMistakable call_barrenSetup hasks barrenBackend
  exact ⟨by decide +kernel, call_barrenSetup, hasks, hchecks.mpr fun h => hloose h.1,
    hrefused hloose⟩

end LightServer.Gateway
