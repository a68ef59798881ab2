import LightServer.Node.Query
import LightServer.Proofs.Bytes.HexText
import LightServer.Proofs.Json.Typed
import LightServer.Proofs.Node.Answers

/-!
# Lists of unspent outputs

The answer of the node to a question for unspent outputs is read if it is a list of
records, of which each one has a hash of 64 hexadecimal digits and a script of pairs of
them. One element that is not spoils the whole answer.
-/

namespace LightServer

namespace Node

open Json Outcome

/-- The element of a list is the record of an unspent output: an object that has its fields, among
other members, or the array of its fields. -/
inductive IsUtxo : Json → UtxoText → Prop where
  | object {ms : List (String × Json)} {x : UtxoText}
      (address : HasMember IsString ms "address" (.string x.address))
      (txid : HasMember IsString ms "txid" (.string x.txid))
      (index : HasMember IsWord64 ms "outputIndex" (.nat x.index))
      (script : HasMember IsString ms "script" (.string x.script))
      (value : HasMember IsInt64 ms "satoshis" (.integer x.value))
      (height : HasMember IsWord64 ms "height" (.nat x.height)) : IsUtxo (.object ms) x
  | array {x : UtxoText} (index : IsWord64 (.nat x.index)) (value : IsInt64 (.integer x.value))
      (height : IsWord64 (.nat x.height)) :
      IsUtxo (.array [.string x.address, .string x.txid, .nat x.index, .string x.script,
        .integer x.value, .nat x.height]) x

variable {v : Json} {x : UtxoText}

theorem decoder_eq_ok_iff : UtxoText.decoder v = .ok x ↔ IsUtxo v x := by
  unfold UtxoText.decoder
  rw [Fields.record_eq_ok_iff]
  simp only [Fields.ofObject_seq_eq_ok_iff, Fields.ofObject_map_eq_ok_iff,
    readsType_string.ofObject_eq_ok_iff, readsType_word64.ofObject_eq_ok_iff,
    readsType_int64.ofObject_eq_ok_iff, Fields.ofItems_seq_eq_ok_iff, Fields.ofItems_map_eq_ok_iff,
    readsType_string.ofItems_eq_ok_iff, readsType_word64.ofItems_eq_ok_iff,
    readsType_int64.ofItems_eq_ok_iff]
  constructor
  · rintro (⟨ms, rfl, h⟩ | ⟨xs, rfl, h⟩)
    · obtain ⟨_, h, _, height, rfl⟩ := h
      obtain ⟨_, h, _, value, rfl⟩ := h
      obtain ⟨_, h, _, script, rfl⟩ := h
      obtain ⟨_, h, _, index, rfl⟩ := h
      obtain ⟨_, ⟨_, address, rfl⟩, _, txid, rfl⟩ := h
      exact .object address txid index script value height
    · obtain ⟨_, _, h, _, ⟨rfl, height⟩, rfl⟩ := h
      obtain ⟨_, _, h, _, ⟨rfl, value⟩, rfl⟩ := h
      obtain ⟨_, _, h, _, ⟨rfl, -⟩, rfl⟩ := h
      obtain ⟨_, _, h, _, ⟨rfl, index⟩, rfl⟩ := h
      obtain ⟨_, _, ⟨_, ⟨rfl, -⟩, rfl⟩, _, ⟨rfl, -⟩, rfl⟩ := h
      exact .array (x := ⟨_, _, _, _, _, _⟩) index value height
  · obtain ⟨a, t, i, c, n, k⟩ := x
    rintro (⟨address, txid, index, script, value, height⟩ | ⟨index, value, height⟩)
    · refine .inl ⟨_, rfl, UtxoText.mk a t i c n, ?_, _, height, rfl⟩
      refine ⟨UtxoText.mk a t i c, ?_, _, value, rfl⟩
      refine ⟨UtxoText.mk a t i, ?_, _, script, rfl⟩
      refine ⟨UtxoText.mk a t, ?_, _, index, rfl⟩
      exact ⟨UtxoText.mk a, ⟨_, address, rfl⟩, _, txid, rfl⟩
    · refine .inr ⟨_, rfl, UtxoText.mk a t i c n, _, ?_, _, ⟨rfl, height⟩, rfl⟩
      refine ⟨UtxoText.mk a t i c, _, ?_, _, ⟨rfl, value⟩, rfl⟩
      refine ⟨UtxoText.mk a t i, _, ?_, _, ⟨rfl, c, rfl⟩, rfl⟩
      refine ⟨UtxoText.mk a t, _, ?_, _, ⟨rfl, index⟩, rfl⟩
      exact ⟨UtxoText.mk a, _, ⟨_, ⟨rfl, a, rfl⟩, rfl⟩, _, ⟨rfl, t, rfl⟩, rfl⟩

structure UtxoText.IsHex (x : UtxoText) : Prop where
  txid : Hex.AllDigits x.txid ∧ x.txid.length = 64
  script : Hex.AllDigits x.script ∧ x.script.length % 2 = 0

def ListsUtxos (v : Json) (xs : List UtxoText) : Prop :=
  (∃ vs, v = .array vs ∧ List.Forall₂ IsUtxo vs xs) ∧ ∀ x ∈ xs, x.IsHex

/-- The unspent output is written as the record, with hexadecimal texts in lower case. -/
structure UtxoText.Tells (x : UtxoText) (u : AddressUtxo) : Prop where
  address : u.address = x.address
  txid : u.txid.display = x.txid.toLower
  index : u.index = x.index
  script : Hex.encode u.script = x.script.toLower
  value : u.value = x.value
  height : u.height = x.height

theorem ofText_eq_ok_iff {u : AddressUtxo} :
    AddressUtxo.ofText x = .ok u ↔ x.IsHex ∧ x.Tells u := by
  unfold AddressUtxo.ofText
  simp only [bind_eq_ok_iff, hashAs_eq_ok_iff, hexAs_eq_ok_iff, Hex.decode_eq_ok_iff]
  constructor
  · rintro ⟨txid, ⟨hdigits, hlength, htxid⟩, script, ⟨hpairs, heven, hscript⟩, hu⟩
    cases hu
    exact ⟨⟨⟨hdigits, hlength⟩, hpairs, heven⟩, rfl, htxid, rfl, hscript, rfl, rfl⟩
  · rintro ⟨⟨htxid, hscript⟩, htells⟩
    refine ⟨u.txid, ⟨htxid.1, htxid.2, htells.txid⟩, u.script,
      ⟨hscript.1, hscript.2, htells.script⟩, ?_⟩
    rw [← htells.address, ← htells.index, ← htells.value, ← htells.height]
    rfl

theorem exists_tells (h : x.IsHex) : ∃ u, x.Tells u := by
  obtain ⟨⟨hdigits, hlength⟩, hpairs, heven⟩ := h
  obtain ⟨txid, htxid, -⟩ := Octets.exists_display_eq (n := 32) hdigits hlength
  obtain ⟨script, -, hscript⟩ := Hex.exists_decode_eq_ok hpairs heven
  exact ⟨⟨x.address, txid, x.index, script, x.value, x.height⟩, rfl, htxid, rfl, hscript, rfl, rfl⟩

/-- Unspent outputs are read from a list of records of them, and from nothing else. -/
theorem read_addressUtxos_eq_ok_iff {address : String} {reply : Reply} {us : List AddressUtxo} :
    (Query.addressUtxos address).read reply = .ok us ↔
      ∃ v xs, reply = .ok v ∧ ListsUtxos v xs ∧ List.Forall₂ UtxoText.Tells xs us := by
  have hread : (Query.addressUtxos address).read reply = .ok us ↔
      ∃ v, reply = .ok v ∧ AddressUtxo.listOfJson v = .ok us := by
    cases reply with
    | error e => exact iff_of_false nofun nofun
    | ok v => exact ⟨fun h => ⟨v, rfl, h⟩, fun ⟨_, hv, h⟩ => by cases hv; exact h⟩
  have hlist : ∀ v, AddressUtxo.listOfJson v = .ok us ↔
      ∃ xs, ListsUtxos v xs ∧ List.Forall₂ UtxoText.Tells xs us := by
    intro v
    unfold AddressUtxo.listOfJson ListsUtxos
    simp only [bind_eq_ok_iff, decodeAs_eq_ok_iff, Decoder.list_eq_ok_iff, mapM_eq_ok_iff,
      decoder_eq_ok_iff, ofText_eq_ok_iff, List.forall₂_and_left, and_assoc]
  simp only [hread, hlist]
  constructor
  · rintro ⟨v, hv, xs, h⟩
    exact ⟨v, xs, hv, h⟩
  · rintro ⟨v, xs, hv, h⟩
    exact ⟨v, hv, xs, h⟩

end Node

end LightServer
