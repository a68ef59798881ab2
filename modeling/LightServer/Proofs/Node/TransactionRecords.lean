import LightServer.Proofs.Bytes.HexText
import LightServer.Proofs.Json.Typed
import LightServer.Proofs.Node.Answers

/-!
# Records of transactions

The answer of the node to a question for a transaction is read if it is a record with
the transaction in pairs of hexadecimal digits. The height of its block may be missing or
null, and then there is none, and neither is there if it is negative.
-/

namespace LightServer.Node

open Json Outcome

def IsHeight (v : Json) : Prop := v = .null ∨ IsInt64 v

/-- The value is the record of a transaction: an object that has its text, and may have a height,
among other members, or the array of these. -/
inductive IsTransaction : Json → String → Option Int → Prop where
  | object {ms : List (String × Json)} {text : String} {height : Option Int}
      (hex : HasMember IsString ms "hex" (.string text))
      (mined : HasMemberOr .null IsHeight ms "height" (.orNull .integer height)) :
      IsTransaction (.object ms) text height
  | array {text : String} {height : Option Int} (mined : IsHeight (.orNull .integer height)) :
      IsTransaction (.array [.string text, .orNull .integer height]) text height
  | short {text : String} : IsTransaction (.array [.string text]) text none

variable {v : Json} {text : String} {height : Option Int} {t : TransactionInfo} {reply : Reply}

theorem readsType_height : Decoder.int64.orNull.ReadsType (.orNull .integer) IsHeight :=
  readsType_int64.orNull fun _ => Json.noConfusion

theorem transactionDecoder_eq_ok_iff :
    transactionDecoder v = .ok (text, height) ↔ IsTransaction v text height := by
  have hnull : IsHeight (.orNull .integer none) := .inl rfl
  unfold transactionDecoder
  rw [Fields.record_eq_ok_iff]
  simp only [Fields.ofObject_seq_eq_ok_iff, Fields.ofObject_map_eq_ok_iff,
    readsType_string.ofObject_eq_ok_iff, readsType_height.ofObject_withDefault_eq_ok_iff hnull,
    Fields.ofItems_seq_eq_ok_iff, Fields.ofItems_map_eq_ok_iff,
    readsType_string.ofItems_eq_ok_iff, readsType_height.ofItems_withDefault_eq_ok_iff]
  constructor
  · rintro (⟨ms, rfl, _, ⟨_, hex, rfl⟩, _, mined, h⟩ | ⟨xs, rfl, _, _, ⟨_, hex, rfl⟩, _, mined, h⟩)
    · cases h
      exact .object hex mined
    · cases h
      obtain ⟨rfl, -⟩ := hex
      obtain ⟨rfl, htyped⟩ | ⟨rfl, -, rfl⟩ := mined
      · exact .array htyped
      · exact .short
  · rintro (⟨hex, mined⟩ | mined | -)
    · exact .inl ⟨_, rfl, _, ⟨_, hex, rfl⟩, _, mined, rfl⟩
    · exact .inr ⟨_, rfl, _, _, ⟨_, ⟨rfl, text, rfl⟩, rfl⟩, _, .inl ⟨rfl, mined⟩, rfl⟩
    · exact .inr ⟨_, rfl, _, _, ⟨_, ⟨rfl, text, rfl⟩, rfl⟩, _, .inr ⟨rfl, trivial, rfl⟩, rfl⟩

/-- The answer is a transaction: a record whose text is made of pairs of hexadecimal digits. -/
def FindsTransaction (reply : Reply) (text : String) (height : Option Int) : Prop :=
  ∃ v, reply = .ok v ∧ IsTransaction v text height ∧ Hex.AllDigits text ∧ text.length % 2 = 0

/-- The transaction is written as the record, in lower case, and its height is that of the record
unless that is negative. -/
structure TransactionInfo.Tells (t : TransactionInfo) (text : String) (height : Option Int) :
    Prop where
  data : Hex.encode t.data = text.toLower
  height : t.height.getD 0 = (height.getD 0).toNat

theorem ofJson_eq_ok_iff : TransactionInfo.ofJson v = .ok t ↔ ∃ text height,
    IsTransaction v text height ∧ Hex.decode text = .ok t.data ∧
      t.height = height.bind fun h => if 0 ≤ h then some h.toNat else none := by
  obtain ⟨data, height⟩ := t
  unfold TransactionInfo.ofJson
  simp only [bind_eq_ok_iff, Prod.exists, decodeAs_eq_ok_iff, transactionDecoder_eq_ok_iff,
    hexAs_eq_ok_iff]
  constructor
  · rintro ⟨text, height, hv, data, hdata, h⟩
    cases h
    exact ⟨text, height, hv, hdata, rfl⟩
  · rintro ⟨text, height, hv, hdata, rfl⟩
    exact ⟨text, height, hv, data, hdata, rfl⟩

theorem exists_tells_of_ofJson (h : TransactionInfo.ofJson v = .ok t) :
    ∃ text height, FindsTransaction (.ok v) text height ∧ t.Tells text height := by
  obtain ⟨text, height, hv, hdata, hheight⟩ := ofJson_eq_ok_iff.mp h
  obtain ⟨hdigits, heven, hlower⟩ := Hex.decode_eq_ok_iff.mp hdata
  refine ⟨text, height, ⟨v, rfl, hv, hdigits, heven⟩, hlower, ?_⟩
  rw [hheight]
  cases height with
  | none => rfl
  | some i =>
      rw [Option.bind_some, Option.getD_some]
      split
      next => rfl
      next hneg => exact (Int.toNat_eq_zero.mpr (by omega)).symm

theorem FindsTransaction.exists_ofJson (h : FindsTransaction (.ok v) text height) :
    ∃ t, TransactionInfo.ofJson v = .ok t := by
  obtain ⟨_, ⟨⟩, hv, hdigits, heven⟩ := h
  obtain ⟨data, hdata, -⟩ := Hex.exists_decode_eq_ok hdigits heven
  exact ⟨⟨data, _⟩, ofJson_eq_ok_iff.mpr ⟨text, height, hv, hdata, rfl⟩⟩

end LightServer.Node
