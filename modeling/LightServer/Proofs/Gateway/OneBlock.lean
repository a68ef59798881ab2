import LightServer.Proofs.Gateway.Opening
import LightServer.Proofs.Gateway.Requests
import LightServer.Proofs.Retrieval.LoneHeight

/-!
# One block as a block and as a range

A block can be asked for by its name, or as a range from it to itself. The range gives
one line in any case. It says the same as the response for the block if the name has a
height and the block can be read by the deadline of the range. A name without a height
is refused only for the block: for the range it is the height 0.
-/

namespace LightServer

open Retrieval

section Late

variable {ν : Type} {c : Cache} {height : Nat} {item : Item}

theorem Retrieval.not_isLate_firstLook (h : firstLook height c = some item) :
    ¬ Backend.IsLate item := by
  unfold firstLook at h
  split at h <;> cases h <;> exact id

theorem Retrieval.not_isLate_secondLook {e : Retrieval.Error} (h : secondLook height c = .error e) :
    ¬ Backend.IsLate (.error e) := by
  unfold secondLook at h
  split at h
  · cases h
    exact id
  · split at h <;> cases h
    exact id

theorem Retrieval.not_isLate_settle (height : Nat) (reply : FetchReply) :
    ¬ Backend.IsLate (settle height reply) := by
  unfold settle
  split <;> exact id

theorem Retrieval.not_isLate_lookTwice (h : ReadPhase.lookTwice height c = .done item) :
    ¬ Backend.IsLate item := by
  unfold ReadPhase.lookTwice at h
  cases hfirst : firstLook height c with
  | some given =>
      simp only [ReadPhase.look, hfirst] at h
      cases h
      exact not_isLate_firstLook hfirst
  | none =>
      cases hsecond : secondLook height c with
      | ok tip =>
          simp only [ReadPhase.look, hfirst, hsecond] at h
          cases h
      | error err =>
          simp only [ReadPhase.look, hfirst, hsecond] at h
          cases h
          exact not_isLate_secondLook hsecond

/-- A single read has no deadline. -/
theorem Backend.not_isLate_readBlock (p : NodeAccess ν) (height : Nat) (s : Backend ν) :
    ¬ IsLate (s.readBlock p height).1 := by
  rw [(s.readBlock_eq p height).1]
  unfold NodeAccess.conclude
  split
  next hdone => exact not_isLate_lookTwice hdone
  · exact not_isLate_settle _ _

end Late

namespace Gateway

variable {ν : Type} {u : Setup ν} {e e' : Envelope} {id : BlockId} {s s' : Backend ν}
  {source : Nat → FetchReply}

/-- The requests ask for the same block, one for the block and one for the range from it to
itself. -/
structure AskForBlock (e e' : Envelope) (id : BlockId) : Prop where
  method : e.method = "GetBlock"
  param : param BlockId.decoder e.params 0 = .ok id
  range_method : e'.method = "GetBlockRange"
  range_param : Gateway.param BlockRange.decoder e'.params 0 = .ok ⟨id, id⟩

/-- The requests, made in the states, give the same: the first one in its response, and the second
one in its only line. -/
def Agree (u : Setup ν) (e e' : Envelope) (s s' : Backend ν) : Prop :=
  ∃ given, (answerEnvelope u e s).1 = response e.id given ∧
    (streamEnvelope u e' s').1 = [response e'.id given]

/-- A read of the height is through when the deadline comes of a range that is opened now. -/
def ReadsInTime (u : Setup ν) (height : Nat) (s : Backend ν) : Prop :=
  (s.readBlock u.node height).2.now ≤ s.now + u.retrieval.rangeDeadline.ceilMillis

theorem answerEnvelope_of_askForBlock (h : AskForBlock e e' id) (s : Backend ν) :
    (answerEnvelope u e s).1 = response e.id (if id.height = 0 then .error id.unnamed
      else renderItem (s.readBlock u.node id.height).1) := by
  have hname : Method.ofName? "GetBlock" = some .getBlock := rfl
  unfold answerEnvelope callUnary onParam
  rw [h.method, hname]
  simp only [h.param, getBlock]
  split <;> rfl

/-- A request for the range is counted before the range is read, and that does not matter. -/
theorem readBlock_countRequest (p : NodeAccess ν) (height : Nat) (method outcome : String)
    (s : Backend ν) :
    ((countRequest method outcome s).readBlock p height).1 = (s.readBlock p height).1 ∧
      ((countRequest method outcome s).readBlock p height).2.now =
        (s.readBlock p height).2.now := by
  obtain ⟨hitem, hafter, -⟩ := s.readBlock_eq p height
  obtain ⟨hitem', hafter', -⟩ := (countRequest method outcome s).readBlock_eq p height
  obtain ⟨metrics, hcounted⟩ := exists_countRequest_eq method outcome s
  rw [hcounted] at hitem' hafter' ⊢
  exact ⟨hitem'.trans hitem.symm, congrArg Prod.snd (hafter'.trans hafter.symm)⟩

theorem openItems_of_askForBlock (h : AskForBlock e e' id) (s : Backend ν) :
    openItems u e'.method e'.params s = (.ok (.blocks id.height id.height
      (s.now + u.retrieval.rangeDeadline.ceilMillis)), s) := by
  have hname : Method.ofName? "GetBlockRange" = some .getBlockRange := rfl
  unfold openItems onParam
  rw [h.range_method, hname]
  simp only [h.range_param, openRange]

/-- The one item of the range is the one line. -/
theorem streamEnvelope_of_readRange {item : Item} (h : AskForBlock e e' id)
    (hitem : ((countRequest e'.method "ok" s).readRange u.node u.retrieval.channelCapacity
      id.height id.height (s.now + u.retrieval.rangeDeadline.ceilMillis)).1 = [item]) :
    (streamEnvelope u e' s).1 = [response e'.id (renderItem item)] := by
  rw [streamEnvelope_of_opened (openItems_of_askForBlock h s)]
  simp only [Items.read, hitem, List.map_cons, List.map_nil]
  cases renderItem item <;> rfl

/-- The range gives the item of a single read, or the error that the deadline has passed. -/
theorem streamEnvelope_of_askForBlock (hcapacity : 0 < u.retrieval.channelCapacity)
    (h : AskForBlock e e' id) (s : Backend ν) :
    (ReadsInTime u id.height s → (streamEnvelope u e' s).1 =
      [response e'.id (renderItem (s.readBlock u.node id.height).1)]) ∧
    (¬ ReadsInTime u id.height s → ∃ late, Backend.IsLate late ∧
      (streamEnvelope u e' s).1 = [response e'.id (renderItem late)]) := by
  have hnow : (countRequest e'.method "ok" s).now ≤
      s.now + u.retrieval.rangeDeadline.ceilMillis := by
    obtain ⟨metrics, hcounted⟩ := exists_countRequest_eq e'.method "ok" s
    rw [hcounted]
    exact Nat.le_add_right _ _
  obtain ⟨hitem, hafter⟩ := readBlock_countRequest u.node id.height e'.method "ok" s
  obtain ⟨hearly, hlate⟩ := Backend.Stream.readRange_lone u.node hcapacity id.height hnow
  rw [hitem, hafter] at hearly
  rw [hafter] at hlate
  refine ⟨fun hread => streamEnvelope_of_readRange h (hearly hread), fun hread => ?_⟩
  obtain ⟨late, his, hgiven⟩ := hlate (Nat.lt_of_not_le hread)
  exact ⟨late, his, streamEnvelope_of_readRange h hgiven⟩

def codeOf? : Except ApiError Json → Option Int
  | .ok _ => none
  | .error err => some err.code

theorem codeOf?_eq_of_response_eq {id : Option Json} {given given' : Except ApiError Json}
    (h : response id given = response id given') : codeOf? given = codeOf? given' := by
  cases given with
  | ok v =>
      cases given' with
      | ok v' => rfl
      | error err' => exact absurd h.symm (errorResponse_ne_resultResponse id err' v)
  | error err =>
      cases given' with
      | ok v' => exact absurd h (errorResponse_ne_resultResponse id err v')
      | error err' => exact congrArg some (code_eq_of_errorResponse_eq h)

/-- The codes of a block that cannot be read, apart from the one of a timeout. -/
def readCodes : List Int :=
  [ApiError.unavailableCode, ApiError.notFoundCode, ApiError.nodeCode, ApiError.internalCode]

theorem code_ofRetrieval (err : Retrieval.Error) :
    (Backend.IsLate (.error err) ∧ (ApiError.ofRetrieval err).code = ApiError.timeoutCode) ∨
      (¬ Backend.IsLate (.error err) ∧ (ApiError.ofRetrieval err).code ∈ readCodes) := by
  cases err with
  | deadlineExceeded height => exact .inl ⟨trivial, rfl⟩
  | notReady => exact .inr ⟨id, (by decide : ApiError.unavailableCode ∈ readCodes)⟩
  | newerThanTip height tip => exact .inr ⟨id, (by decide : ApiError.unavailableCode ∈ readCodes)⟩
  | notFound height => exact .inr ⟨id, (by decide : ApiError.notFoundCode ∈ readCodes)⟩
  | source height error => exact .inr ⟨id, (by decide : ApiError.nodeCode ∈ readCodes)⟩
  | cache error => exact .inr ⟨id, (by decide : ApiError.internalCode ∈ readCodes)⟩
  | config text => exact .inr ⟨id, (by decide : ApiError.internalCode ∈ readCodes)⟩

/-- An item is rendered with the code of a timeout exactly if it tells that the deadline has
passed. -/
theorem codeOf?_renderItem_eq_iff {item : Item} :
    codeOf? (renderItem item) = some ApiError.timeoutCode ↔ Backend.IsLate item := by
  cases item with
  | ok b => exact iff_of_false nofun id
  | error err =>
      rcases code_ofRetrieval err with ⟨hlate, hcode⟩ | ⟨hlate, hcode⟩
      · exact iff_of_true (congrArg some hcode) hlate
      · refine iff_of_false (fun h => ?_) hlate
        rw [Option.some.inj h] at hcode
        exact absurd hcode (by decide)

theorem code_unnamed (id : BlockId) :
    id.unnamed.code ∈ [ApiError.unimplementedCode, ApiError.invalidParamsCode] := by
  unfold BlockId.unnamed
  split
  · exact List.mem_cons_self
  · exact List.mem_cons_of_mem _ List.mem_cons_self

/-- What is rendered is never the refusal of a name. -/
theorem codeOf?_renderItem_ne (id : BlockId) (item : Item) :
    codeOf? (renderItem item) ≠ some id.unnamed.code := by
  intro h
  cases item with
  | ok b => cases h
  | error err =>
      have hsame := code_unnamed id
      rw [← Option.some.inj h] at hsame
      have hother : ∀ code ∈ ApiError.timeoutCode :: readCodes,
          code ∉ [ApiError.unimplementedCode, ApiError.invalidParamsCode] := by decide
      rcases code_ofRetrieval err with ⟨-, hcode⟩ | ⟨-, hcode⟩
      · exact hother _ (hcode ▸ List.mem_cons_self) hsame
      · exact hother _ (List.mem_cons_of_mem _ hcode) hsame

/-- The line of the range is what is made of an item. -/
theorem exists_streamEnvelope_eq (hcapacity : 0 < u.retrieval.channelCapacity)
    (h : AskForBlock e e' id) (s : Backend ν) :
    ∃ item, (streamEnvelope u e' s).1 = [response e'.id (renderItem item)] := by
  obtain ⟨hearly, hlate⟩ := streamEnvelope_of_askForBlock hcapacity h s
  by_cases hread : ReadsInTime u id.height s
  · exact ⟨_, hearly hread⟩
  · obtain ⟨late, -, hline⟩ := hlate hread
    exact ⟨late, hline⟩

/-- A name without a height is refused for the block alone. -/
theorem not_agree_of_height_eq_zero (hcapacity : 0 < u.retrieval.channelCapacity)
    (h : AskForBlock e e' id) (hheight : id.height = 0) : ¬ Agree u e e' s s' := by
  rintro ⟨given, hanswer, hline⟩
  obtain ⟨item, hitem⟩ := exists_streamEnvelope_eq hcapacity h s'
  rw [hitem, List.cons.injEq] at hline
  rw [answerEnvelope_of_askForBlock h, if_pos hheight] at hanswer
  exact codeOf?_renderItem_ne id item
    ((codeOf?_eq_of_response_eq hline.1).trans (codeOf?_eq_of_response_eq hanswer).symm)

/-- Over a node that answers from a source it does not matter when a block is read. -/
theorem readBlock_eq_of_cache_eq (hanswers : u.node.Answers source) (hcache : s.cache = s'.cache)
    (height : Nat) : (s.readBlock u.node height).1 = (s'.readBlock u.node height).1 := by
  rw [(s.readBlock_eq u.node height).1, (s'.readBlock_eq u.node height).1, hcache]
  exact hanswers.conclude_eq _ _ _ _

/-- A range of one block gives one line. It says what the response for the block says exactly if the
block is named by a height and can be read by the deadline of the range. -/
theorem agree_iff (hanswers : u.node.Answers source) (hcapacity : 0 < u.retrieval.channelCapacity)
    (h : AskForBlock e e' id) (hcache : s.cache = s'.cache) :
    (∃ given, (streamEnvelope u e' s').1 = [response e'.id given]) ∧
      (Agree u e e' s s' ↔ id.height ≠ 0 ∧ ReadsInTime u id.height s') := by
  obtain ⟨hearly, hlate⟩ := streamEnvelope_of_askForBlock hcapacity h s'
  have hsame := readBlock_eq_of_cache_eq hanswers hcache id.height
  refine ⟨?_, fun hagree => ?_, fun ⟨hheight, hread⟩ => ?_⟩
  · obtain ⟨item, hitem⟩ := exists_streamEnvelope_eq hcapacity h s'
    exact ⟨_, hitem⟩
  · have hheight : id.height ≠ 0 := fun hzero =>
      not_agree_of_height_eq_zero hcapacity h hzero hagree
    refine ⟨hheight, Classical.byContradiction fun hread => ?_⟩
    obtain ⟨given, hanswer, hline⟩ := hagree
    obtain ⟨late, his, hgiven⟩ := hlate hread
    rw [hgiven, List.cons.injEq] at hline
    rw [answerEnvelope_of_askForBlock h, if_neg hheight] at hanswer
    have hcode := (codeOf?_eq_of_response_eq hanswer).trans (codeOf?_eq_of_response_eq hline.1).symm
    rw [codeOf?_renderItem_eq_iff.mpr his] at hcode
    exact Backend.not_isLate_readBlock _ _ _ (codeOf?_renderItem_eq_iff.mp hcode)
  · refine ⟨_, ?_, hearly hread⟩
    rw [answerEnvelope_of_askForBlock h, if_neg hheight, hsame]

def slowSetup : Setup Unit := ⟨Backend.Stream.slowNode, .default, .default⟩

def narrowBackend : Backend Unit := ⟨(), Backend.Stream.narrowServer.cache, {}, 0⟩

def seventh : Json := .object [("hash", .string "00"), ("height", .nat 7)]

def seventhRequest : Envelope := ⟨some (.nat 1), "GetBlock", some (.array [seventh])⟩

def seventhRangeRequest : Envelope :=
  ⟨some (.nat 2), "GetBlockRange", some (.array [.object [("end", seventh), ("start", seventh)]])⟩

/-- The block is asked for, and the range half a second later. The node is asked both times, and
both requests get the same. -/
theorem agree_iff_of_slowSetup :
    slowSetup.node.Answers Backend.Stream.loneSeven ∧
    0 < slowSetup.retrieval.channelCapacity ∧
    AskForBlock seventhRequest seventhRangeRequest ⟨7, some "00"⟩ ∧
    narrowBackend.cache.asksNode 7 = true ∧
    ReadsInTime slowSetup 7 (narrowBackend.waitUntil 500) ∧
    Agree slowSetup seventhRequest seventhRangeRequest narrowBackend
      (narrowBackend.waitUntil 500) := by
  have hanswers : slowSetup.node.Answers Backend.Stream.loneSeven := fun _ _ => rfl
  have hcapacity : 0 < slowSetup.retrieval.channelCapacity := by decide
  have hask : AskForBlock seventhRequest seventhRangeRequest ⟨7, some "00"⟩ := ⟨rfl, rfl, rfl, rfl⟩
  have hread : ReadsInTime slowSetup 7 (narrowBackend.waitUntil 500) := by
    unfold ReadsInTime
    decide +kernel
  have hcache : narrowBackend.cache = (narrowBackend.waitUntil 500).cache := rfl
  have hagree := (agree_iff hanswers hcapacity hask hcache).2
  exact ⟨hanswers, hcapacity, hask, by decide +kernel, hread, hagree.mpr ⟨by decide, hread⟩⟩

def genesis : CompactBlock := Sample.block 0 0 (Octets.zero 32)

def bareSetup : Setup Unit := ⟨.ofSource fun _ => .ok none, .default, .default⟩

def genesisBackend : Backend Unit := ⟨(), ((Cache.empty .standard 100).add 0 genesis).2, {}, 0⟩

def unnamedRequest : Envelope where
  id := some (.nat 1)
  method := "GetBlock"
  params := some (.array [.object []])

def unnamedRangeRequest : Envelope where
  id := some (.nat 1)
  method := "GetBlockRange"
  params := some (.array [.object [("end", .object []), ("start", .object [])]])

theorem askForBlock_unnamed : AskForBlock unnamedRequest unnamedRangeRequest ⟨0, none⟩ :=
  ⟨rfl, rfl, rfl, rfl⟩

theorem readBlock_genesisBackend :
    (genesisBackend.readBlock bareSetup.node 0).1 = .ok genesis := by rfl

theorem readsInTime_genesisBackend : ReadsInTime bareSetup 0 genesisBackend := by
  unfold ReadsInTime
  decide +kernel

/-- A block without a name is refused, while a range of it is answered with the first block. -/
theorem not_agree_of_unnamed :
    bareSetup.node.Answers (fun _ => .ok none) ∧
    AskForBlock unnamedRequest unnamedRangeRequest ⟨0, none⟩ ∧
    (answerEnvelope bareSetup unnamedRequest genesisBackend).1 =
      errorResponse (some (.nat 1)) (.invalidParams "request for unspecified identifier") ∧
    (streamEnvelope bareSetup unnamedRangeRequest genesisBackend).1 =
      [resultResponse (some (.nat 1)) (WalletBlock.ofCompact genesis).toJson] ∧
    ¬ Agree bareSetup unnamedRequest unnamedRangeRequest genesisBackend genesisBackend := by
  have hcapacity : 0 < bareSetup.retrieval.channelCapacity := by decide
  refine ⟨NodeAccess.answers_ofSource _, askForBlock_unnamed,
    answerEnvelope_of_askForBlock askForBlock_unnamed genesisBackend, ?_,
    not_agree_of_height_eq_zero hcapacity askForBlock_unnamed rfl⟩
  have hline := (streamEnvelope_of_askForBlock hcapacity askForBlock_unnamed genesisBackend).1
    readsInTime_genesisBackend
  rwa [readBlock_genesisBackend] at hline

end Gateway

end LightServer
