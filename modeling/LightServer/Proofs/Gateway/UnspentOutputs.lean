import LightServer.Proofs.Gateway.Opening
import LightServer.Proofs.Gateway.Requests
import LightServer.Proofs.Json.Members
import LightServer.Proofs.Node.UtxoRecords

/-!
# Unspent outputs of an address

What the node lists for an address is passed on element by element, with hashes and
scripts in lower case and everything else as it is. An answer that is no such list, one
bad element of it, or a node that does not answer in time make it a single error.
-/

namespace LightServer.Gateway

open Json Node

variable {ν : Type} {u : Setup ν} {e : Envelope} {s : Backend ν} {address : String}

structure AsksUtxos (e : Envelope) (address : String) : Prop where
  method : e.method = "GetUtxos"
  param : param TransparentAddress.decoder e.params 0 = .ok ⟨address⟩
  valid : LooksTransparent address

/-- The value is the record that a wallet gets of an unspent output: as the node writes it, with
hexadecimal texts in lower case. -/
structure ShowsUtxo (x : UtxoText) (v : Json) : Prop where
  address : v.get? "address" = some (.string x.address)
  txid : v.get? "txid" = some (.string x.txid.toLower)
  index : v.get? "index" = some (.nat x.index)
  script : v.get? "script" = some (.string x.script.toLower)
  value : v.get? "value_zat" = some (.integer x.value)
  height : v.get? "height" = some (.nat x.height)

def GivesUtxo (id : Json) (x : UtxoText) (out : Json) : Prop :=
  ∃ v, IsResult id v out ∧ ShowsUtxo x v

def utxosReply (u : Setup ν) (address : String) (s : Backend ν) : Option Reply :=
  (s.call u.node (some (streamDeadline u s)) "getaddressutxos"
    [.object [("addresses", .array [.string address])]]).1

def NodeLists (u : Setup ν) (address : String) (s : Backend ν) (xs : List UtxoText) : Prop :=
  ∃ v, utxosReply u address s = some (.ok v) ∧ ListsUtxos v xs

theorem showsUtxo_toJson {x : UtxoText} {y : AddressUtxo} (h : x.Tells y) :
    ShowsUtxo x (Utxo.ofNode y).toJson := by
  have hkeys : ["address", "txid", "index", "script", "value_zat", "height"].Nodup := by decide
  have hget {k : String} {v : Json} (hmem : (k, v) ∈ [("address", Json.string y.address),
      ("txid", .string y.txid.display), ("index", .nat y.index),
      ("script", .string (Hex.encode y.script)), ("value_zat", .integer y.value),
      ("height", .nat y.height)]) : (Utxo.ofNode y).toJson.get? k = some v :=
    Json.get?_ofMembers hkeys hmem
  constructor
  · exact hget (by simp [h.address])
  · exact hget (by simp [h.txid])
  · exact hget (by simp [h.index])
  · exact hget (by simp [h.script])
  · exact hget (by simp [h.value])
  · exact hget (by simp [h.height])

/-- The responses to unspent outputs give the records that tell of them. -/
theorem forall₂_givesUtxo (id : Option Json) {xs : List UtxoText} {ys : List AddressUtxo}
    (h : List.Forall₂ UtxoText.Tells xs ys) : List.Forall₂ (GivesUtxo (id.getD .null)) xs
      (ys.map fun y => resultResponse id (Utxo.ofNode y).toJson) := by
  rw [List.forall₂_map_right_iff]
  exact h.imp fun x y hxy => ⟨_, isResult_resultResponse id _, showsUtxo_toJson hxy⟩

/-- The unspent outputs of an address are there when the node lists them. -/
theorem inTime_addressUtxos_eq_ok_iff {ys : List AddressUtxo} :
    inTime "GetUtxos" (s.askBy u.node (some (streamDeadline u s)) (.addressUtxos address)).1 =
      .ok ys ↔ ∃ xs, NodeLists u address s xs ∧ List.Forall₂ UtxoText.Tells xs ys := by
  have hasked : (s.askBy u.node (some (streamDeadline u s)) (.addressUtxos address)).1 =
      (utxosReply u address s).map (Query.addressUtxos address).read := rfl
  rw [inTime_eq_ok_iff, hasked, Option.map_eq_some_iff]
  constructor
  · rintro ⟨reply, hreply, hread⟩
    obtain ⟨v, xs, rfl, hlists, htells⟩ := read_addressUtxos_eq_ok_iff.mp hread
    exact ⟨xs, ⟨v, hreply, hlists⟩, htells⟩
  · rintro ⟨xs, ⟨v, hreply, hlists⟩, htells⟩
    exact ⟨_, hreply, read_addressUtxos_eq_ok_iff.mpr ⟨v, xs, rfl, hlists, htells⟩⟩

/-- What opening gives hangs on what the node says. -/
theorem openItems_of_asksUtxos (h : AsksUtxos e address) :
    openItems u e.method e.params s =
      ((inTime "GetUtxos"
          (s.askBy u.node (some (streamDeadline u s)) (.addressUtxos address)).1).map
        fun ys => .values (ys.map fun y => (Utxo.ofNode y).toJson),
        (s.askBy u.node (some (streamDeadline u s)) (.addressUtxos address)).2) := by
  have hname : Method.ofName? "GetUtxos" = some .getUtxos := rfl
  have hvalid : validateAddress address = .ok () := if_pos h.valid
  unfold openItems onParam
  rw [h.method, hname]
  simp only [h.param, openUtxos, hvalid]

theorem givesUtxos_of_nodeLists {xs : List UtxoText} (h : AsksUtxos e address)
    (hlists : NodeLists u address s xs) :
    List.Forall₂ (GivesUtxo (e.id.getD .null)) xs (streamEnvelope u e s).1 := by
  have hopen := openItems_of_asksUtxos (u := u) (s := s) h
  obtain ⟨v, -, -, hhex⟩ := id hlists
  obtain ⟨ys, htells⟩ := exists_forall₂ fun x hx => exists_tells (hhex x hx)
  rw [inTime_addressUtxos_eq_ok_iff.mpr ⟨xs, hlists, htells⟩] at hopen
  rw [streamEnvelope_of_opened hopen]
  have hgives := forall₂_givesUtxo e.id htells
  simp only [Items.read, List.map_map]
  exact hgives

theorem exists_isFault_of_not_nodeLists (h : AsksUtxos e address)
    (hnone : ¬ ∃ xs, NodeLists u address s xs) :
    ∃ code out, (streamEnvelope u e s).1 = [out] ∧ IsFault (e.id.getD .null) code out := by
  have hopen := openItems_of_asksUtxos (u := u) (s := s) h
  cases hasked : inTime "GetUtxos"
      (s.askBy u.node (some (streamDeadline u s)) (.addressUtxos address)).1 with
  | ok ys =>
      obtain ⟨xs, hlists, -⟩ := inTime_addressUtxos_eq_ok_iff.mp hasked
      exact absurd ⟨xs, hlists⟩ hnone
  | error err =>
      rw [hasked] at hopen
      exact ⟨err.code, errorResponse e.id err, by rw [streamEnvelope_of_refused hopen],
        isFault_errorResponse e.id err⟩

/-- No line is an error where all of them give unspent outputs. -/
theorem get?_error_of_forall₂ {id : Json} {xs : List UtxoText} {lines : List Json}
    (h : List.Forall₂ (GivesUtxo id) xs lines) : ∀ out ∈ lines, out.get? "error" = none := by
  induction h with
  | nil => exact nofun
  | cons hgives _ ih =>
      obtain ⟨v, hresult, -⟩ := hgives
      exact List.forall_mem_cons.mpr ⟨hresult.get?_eq_none, ih⟩

/-- If the node lists the unspent outputs of an address in time, they are passed on one by one, and
otherwise there is one error and nothing else. So there is no error exactly if it does. -/
theorem streamEnvelope_getUtxos (h : AsksUtxos e address) (s : Backend ν) :
    (∀ xs, NodeLists u address s xs →
      List.Forall₂ (GivesUtxo (e.id.getD .null)) xs (streamEnvelope u e s).1) ∧
    ((¬ ∃ xs, NodeLists u address s xs) →
      ∃ code out, (streamEnvelope u e s).1 = [out] ∧ IsFault (e.id.getD .null) code out) ∧
    ((∀ out ∈ (streamEnvelope u e s).1, out.get? "error" = none) ↔
      ∃ xs, NodeLists u address s xs) := by
  refine ⟨fun xs => givesUtxos_of_nodeLists h, exists_isFault_of_not_nodeLists h, ?_, ?_⟩
  · intro hclean
    refine Classical.byContradiction fun hnone => ?_
    obtain ⟨code, out, hlines, hfault⟩ := exists_isFault_of_not_nodeLists h hnone
    rw [hlines] at hclean
    exact hfault.get?_ne_none (hclean out (List.mem_singleton.mpr rfl))
  · rintro ⟨xs, hlists⟩
    exact get?_error_of_forall₂ (givesUtxos_of_nodeLists h hlists)

def someAddress : String := "t1VmmGiyjVNeCjxDZzg7vZmd99WyzVby9yC"

def someTxid : String := String.ofList (List.replicate 64 'A')

def twoUtxos : Json :=
  .array [.object [("address", .string someAddress), ("chain", .null), ("height", .nat 7),
      ("outputIndex", .nat 1), ("satoshis", .integer (-5)), ("script", .string "76A9"),
      ("txid", .string someTxid)],
    .array [.string someAddress, .string someTxid, .nat 1, .string "76A9", .integer (-5), .nat 7]]

def someUtxo : UtxoText := ⟨someAddress, someTxid, 1, "76A9", -5, 7⟩

def listing : Setup Unit := ⟨.ofCall fun _ _ w => ((0, .ok twoUtxos), w), .default, .default⟩

def utxosRequest : Envelope where
  id := some (.nat 1)
  method := "GetUtxos"
  params := some (.array [.object [("address", .string someAddress)]])

theorem listsUtxos_twoUtxos : ListsUtxos twoUtxos [someUtxo, someUtxo] := by
  have hindex : IsWord64 (.nat 1) := ⟨1, rfl, by decide⟩
  have hheight : IsWord64 (.nat 7) := ⟨7, rfl, by decide⟩
  have hvalue : IsInt64 (.integer (-5)) := ⟨-5, rfl, by decide⟩
  have hstring : ∀ t, IsString (.string t) := fun t => ⟨t, rfl⟩
  have hhex : someUtxo.IsHex := ⟨by decide +kernel, by decide +kernel⟩
  refine ⟨⟨_, rfl,
    .cons ?_ (.cons (IsUtxo.array (x := someUtxo) hindex hvalue hheight) .nil)⟩, ?_⟩
  · constructor <;> refine ⟨rfl, ?_⟩ <;> simp [hindex, hheight, hvalue, hstring]
  · simp [hhex]

/-- Both are given to the wallet, with the hexadecimal texts in lower case. -/
theorem streamEnvelope_getUtxos_of_listing :
    AsksUtxos utxosRequest someAddress ∧
    NodeLists listing someAddress quietBackend [someUtxo, someUtxo] ∧
    List.Forall₂ (GivesUtxo (.nat 1)) [someUtxo, someUtxo]
      (streamEnvelope listing utxosRequest quietBackend).1 := by
  have hasks : AsksUtxos utxosRequest someAddress := ⟨rfl, rfl, by decide +kernel⟩
  have hreply : utxosReply listing someAddress quietBackend = some (.ok twoUtxos) := by
    have hnow : quietBackend.InTime 0 (some (streamDeadline listing quietBackend)) := .inl rfl
    exact congrArg Prod.fst (if_pos hnow)
  have hlists : NodeLists listing someAddress quietBackend [someUtxo, someUtxo] :=
    ⟨_, hreply, listsUtxos_twoUtxos⟩
  exact ⟨hasks, hlists, (streamEnvelope_getUtxos hasks quietBackend).1 _ hlists⟩

end LightServer.Gateway
