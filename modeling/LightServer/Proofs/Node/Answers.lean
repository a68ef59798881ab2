import LightServer.Backend.Basic
import LightServer.Proofs.Bytes.HexText
import LightServer.Proofs.Json.Exact

/-!
# What answers of the node are made of

The numbers in what is read from an answer have 64 bits, whatever the answer is. Reading
makes no failures: a failure that comes out of it is one that the node has reported.
-/

namespace LightServer.Node

open Json Outcome

variable {α β : Type} {v : Json} {reply : Reply}

def OnlyDecode (x : Except Error α) : Prop := ∀ e, x = .error e → ∃ text, e = .decode text

theorem OnlyDecode.bind {x : Except Error α} {f : α → Except Error β} (hx : OnlyDecode x)
    (hf : ∀ a, OnlyDecode (f a)) : OnlyDecode (x >>= f) := by
  intro e he
  cases x with
  | error e' =>
      cases he
      exact hx e rfl
  | ok a => exact hf a e he

theorem onlyDecode_ok (a : α) : OnlyDecode (.ok a) := nofun

theorem onlyDecode_mapM {f : α → Except Error β} (hf : ∀ a, OnlyDecode (f a)) (xs : List α) :
    OnlyDecode (xs.mapM f) := by
  induction xs with
  | nil => exact onlyDecode_ok []
  | cons a xs ih =>
      rw [List.mapM_cons]
      exact (hf a).bind fun b => ih.bind fun bs => onlyDecode_ok _

theorem onlyDecode_decodeAs (method : String) (d : Decoder α) (v : Json) :
    OnlyDecode (decodeAs method d v) := by
  intro e he
  unfold decodeAs at he
  split at he <;> cases he
  exact ⟨_, rfl⟩

theorem onlyDecode_hexAs (what s : String) : OnlyDecode (hexAs what s) := by
  intro e he
  unfold hexAs at he
  split at he <;> cases he
  exact ⟨_, rfl⟩

theorem onlyDecode_hashAs (what s : String) : OnlyDecode (hashAs what s) := by
  intro e he
  unfold hashAs at he
  split at he <;> cases he
  exact ⟨_, rfl⟩

theorem onlyDecode_txidsOfJson (v : Json) : OnlyDecode (txidsOfJson v) :=
  (onlyDecode_decodeAs _ _ v).bind (onlyDecode_mapM (onlyDecode_hashAs _))

theorem onlyDecode_utxosOfJson (v : Json) : OnlyDecode (AddressUtxo.listOfJson v) :=
  (onlyDecode_decodeAs _ _ v).bind (onlyDecode_mapM fun _ =>
    (onlyDecode_hashAs _ _).bind fun _ => (onlyDecode_hexAs _ _).bind fun _ => onlyDecode_ok _)

theorem onlyDecode_transactionOfJson (v : Json) : OnlyDecode (TransactionInfo.ofJson v) :=
  (onlyDecode_decodeAs _ _ v).bind fun _ => (onlyDecode_hexAs _ _).bind fun _ => onlyDecode_ok _

/-- A failure that the question gives was reported by the node. -/
def Query.PassesOn (q : Query α) : Prop :=
  ∀ reply f, q.read reply = .error (.failure f) → reply = .error (.failure f)

namespace Query

theorem passesOn_of_bind {q : Query α} {f : Json → Except Error α} (hf : ∀ v, OnlyDecode (f v))
    (hq : ∀ reply, q.read reply = reply.bind f) : q.PassesOn := by
  intro reply fail h
  rw [hq] at h
  cases reply with
  | error e =>
      cases h
      rfl
  | ok v =>
      obtain ⟨text, htext⟩ := hf v _ h
      cases htext

theorem passesOn_addressTxids (addresses : List String) (start stop : Nat) :
    (addressTxids addresses start stop).PassesOn :=
  passesOn_of_bind onlyDecode_txidsOfJson fun _ => rfl

theorem passesOn_addressUtxos (address : String) : (addressUtxos address).PassesOn :=
  passesOn_of_bind onlyDecode_utxosOfJson fun _ => rfl

theorem passesOn_transaction (txid : Hash) : (transaction txid).PassesOn := by
  intro reply f h
  cases reply with
  | ok v =>
      simp only [transaction] at h
      cases hv : TransactionInfo.ofJson v with
      | ok t =>
          rw [hv] at h
          cases h
      | error e =>
          rw [hv] at h
          cases h
          obtain ⟨text, htext⟩ := onlyDecode_transactionOfJson v _ hv
          cases htext
  | error e =>
      simp only [transaction] at h
      cases e with
      | failure g =>
          simp only at h
          split at h
          · cases h
          · cases h
            rfl
      | _ => cases h

end Query

theorem exists_of_mem_mapM {ε : Type} {f : α → Except ε β} {xs : List α} {ys : List β} {y : β}
    (h : xs.mapM f = .ok ys) (hy : y ∈ ys) : ∃ x ∈ xs, f x = .ok y := by
  induction xs generalizing ys with
  | nil =>
      cases h
      cases hy
  | cons x xs ih =>
      rw [List.mapM_cons] at h
      obtain ⟨b, hb, h⟩ := bind_eq_ok_iff.mp h
      obtain ⟨bs, hbs, h⟩ := bind_eq_ok_iff.mp h
      cases h
      obtain rfl | hy := List.mem_cons.mp hy
      · exact ⟨x, List.mem_cons_self, hb⟩
      · obtain ⟨x', hx', hf⟩ := ih hbs hy
        exact ⟨x', List.mem_cons_of_mem _ hx', hf⟩

theorem decodeAs_eq_ok_iff {method : String} {d : Decoder α} {a : α} :
    decodeAs method d v = .ok a ↔ d v = .ok a := by
  unfold decodeAs
  cases d v <;> simp

theorem hexAs_eq_ok_iff {what text : String} {raw : Bytes} :
    hexAs what text = .ok raw ↔ Hex.decode text = .ok raw := by
  unfold hexAs
  cases Hex.decode text <;> simp

theorem hashAs_eq_ok_iff {what text : String} {h : Hash} : hashAs what text = .ok h ↔
    Hex.AllDigits text ∧ text.length = 64 ∧ h.display = text.toLower := by
  have hdisplay : Octets.ofDisplay 32 text = .ok h ↔
      Hex.AllDigits text ∧ text.length = 64 ∧ h.display = text.toLower :=
    Octets.ofDisplay_eq_ok_iff
  rw [← hdisplay, hashAs]
  cases Octets.ofDisplay 32 text <;> simp

theorem ensures_string (name : String) :
    (Fields.required name Decoder.string).Ensures fun _ => True :=
  Fields.ensures_required fun _ _ _ => trivial

theorem ensures_word64 (name : String) :
    (Fields.required name Decoder.word64).Ensures fun n => n ≤ Text.maxWord64 :=
  Fields.ensures_required fun _ _ => Decoder.le_of_word64

theorem word64_of_int64 {i : Int} (h : Decoder.int64 v = .ok i) :
    Word64 i ∧ i ≤ Text.maxInt64 := by
  obtain ⟨hlow, hhigh⟩ := Decoder.bounds_of_integerIn h
  have hle : (Text.maxInt64 : Int) ≤ Text.maxWord64 := by decide
  unfold Word64
  omega

def UtxoText.Fits (t : UtxoText) : Prop :=
  t.index ≤ Text.maxWord64 ∧ Word64 t.value ∧ t.height ≤ Text.maxWord64

theorem UtxoText.fits_of_decoder {t : UtxoText} (h : UtxoText.decoder v = .ok t) : t.Fits := by
  have hvalue : (Fields.required "satoshis" Decoder.int64).Ensures Word64 :=
    Fields.ensures_required fun _ _ h => (word64_of_int64 h).1
  refine Fields.Ensures.record (.seq (.seq (.seq (.seq (.seq (.map (ensures_string _) ?_)
    (ensures_string _)) (ensures_word64 _)) (ensures_string _)) hvalue) (ensures_word64 _)) h
  exact fun _ _ _ _ _ hindex _ _ _ hvalue _ hheight => ⟨hindex, hvalue, hheight⟩

def AddressUtxo.Fits (u : AddressUtxo) : Prop :=
  u.index ≤ Text.maxWord64 ∧ Word64 u.value ∧ u.height ≤ Text.maxWord64

theorem AddressUtxo.fits_of_ofText {t : UtxoText} {u : AddressUtxo} (h : ofText t = .ok u)
    (ht : t.Fits) : u.Fits := by
  obtain ⟨txid, -, h⟩ := bind_eq_ok_iff.mp h
  obtain ⟨script, -, h⟩ := bind_eq_ok_iff.mp h
  cases h
  exact ht

theorem AddressUtxo.fits_of_listOfJson {us : List AddressUtxo} {u : AddressUtxo}
    (h : listOfJson v = .ok us) (hu : u ∈ us) : u.Fits := by
  obtain ⟨ts, hts, hus⟩ := bind_eq_ok_iff.mp h
  obtain ⟨t, ht, hofText⟩ := exists_of_mem_mapM hus hu
  rw [decodeAs_eq_ok_iff] at hts
  cases v with
  | array xs =>
      obtain ⟨x, -, hx⟩ := exists_of_mem_mapM hts ht
      exact fits_of_ofText hofText (UtxoText.fits_of_decoder hx)
  | _ => cases hts

theorem Query.fits_of_addressUtxos {address : String} {us : List AddressUtxo} {u : AddressUtxo}
    (h : (addressUtxos address).read reply = .ok us) (hu : u ∈ us) : u.Fits := by
  cases reply with
  | error e => cases h
  | ok v => exact AddressUtxo.fits_of_listOfJson h hu

def HeightFits (height : Option Int) : Prop := ∀ i ∈ height, i ≤ (Text.maxInt64 : Int)

theorem heightFits_of_transactionDecoder {x : String × Option Int}
    (h : transactionDecoder v = .ok x) : HeightFits x.2 := by
  have hheight : (Fields.withDefault "height" Decoder.int64.orNull none).Ensures HeightFits := by
    refine Fields.ensures_field (fun v x hx => ?_) (by rintro _ ⟨⟩; exact nofun)
      (by rintro _ ⟨⟩; exact nofun)
    unfold Decoder.orNull at hx
    split at hx
    · cases hx
      exact nofun
    · obtain ⟨i, hi, rfl⟩ := map_eq_ok_iff.mp hx
      rintro _ ⟨⟩
      exact (word64_of_int64 hi).2
  have hhex : (Prod.mk <$> Fields.required "hex" Decoder.string).Ensures
      fun g : Option Int → String × Option Int => ∀ height, HeightFits height →
        HeightFits (g height).2 :=
    .map (ensures_string _) fun _ _ _ hfits => hfits
  have hfields := Fields.Ensures.seq (Q := fun x : String × Option Int => HeightFits x.2)
    hhex hheight
  exact hfields.record h

theorem TransactionInfo.height_le_of_ofJson {t : TransactionInfo} (h : ofJson v = .ok t) :
    ∀ height ∈ t.height, height ≤ Text.maxWord64 := by
  obtain ⟨⟨hex, height⟩, hdecoded, h⟩ := bind_eq_ok_iff.mp h
  obtain ⟨data, -, h⟩ := bind_eq_ok_iff.mp h
  cases h
  have hle := heightFits_of_transactionDecoder (decodeAs_eq_ok_iff.mp hdecoded)
  have hmax : (Text.maxInt64 : Int) ≤ Text.maxWord64 := by decide
  intro k hk
  obtain ⟨i, hi, hk⟩ := Option.bind_eq_some_iff.mp hk
  obtain ⟨-, hk⟩ := Option.ite_none_right_eq_some.mp hk
  cases hk
  have := hle i hi
  omega

theorem Query.height_le_of_transaction {txid : Hash} {t : TransactionInfo}
    (h : (transaction txid).read reply = .ok (some t)) :
    ∀ height ∈ t.height, height ≤ Text.maxWord64 := by
  cases reply with
  | ok v =>
      obtain ⟨t', ht, hsome⟩ := map_eq_ok_iff.mp h
      cases hsome
      exact TransactionInfo.height_le_of_ofJson ht
  | error e =>
      simp only [transaction] at h
      cases e with
      | failure f =>
          simp only at h
          split at h <;> cases h
      | _ => cases h

end LightServer.Node
