import LightServer.Gateway.Stream
import LightServer.Proofs.Node.Answers

/-!
# Records that go out

What a stream gives, block or transaction or unspent output or error, is written so that
it is read back as it is. The numbers in it come from words, from bounds that were checked
when an answer of the node was read, or are codes. The node's own codes are the only numbers
that are passed on unchecked.
-/

namespace LightServer

open Json

def NodeAccess.CodesFit {ν : Type} (p : NodeAccess ν) : Prop :=
  ∀ method params w f, (p.call method params w).1.2 = .error (.failure f) → Word64 f.code

namespace Gateway

open Node

variable {ν : Type} {depth : Nat}

theorem exact_walletOutput (o : WalletOutput) : Exact (depth + 1) o.toJson :=
  .ofMembers (by simp [Exact.string])

theorem exact_walletTx (t : WalletTx) : Exact (depth + 3) t.toJson := by
  have hindex : t.index.toNat ≤ Text.maxWord64 := Nat.le_of_lt_succ t.index.toNat_lt
  have hfee : t.fee.toNat ≤ Text.maxWord64 :=
    Nat.le_trans (Nat.le_of_lt t.fee.toNat_lt) (by decide)
  have hspends : Exact (depth + 2) (listOf (fun s => ofMembers [("nf", .string s)]) t.spends) :=
    .listOf fun s _ => .ofMembers (by simp [Exact.string])
  have houtputs : Exact (depth + 2) (listOf WalletOutput.toJson t.outputs) :=
    .listOf fun o _ => exact_walletOutput o
  exact .ofMembers (by simp [Exact.string, Exact.nat, hindex, hfee, hspends, houtputs])

theorem exact_walletBlock (b : WalletBlock) : Exact (depth + 5) b.toJson := by
  have hword {w : UInt32} : w.toNat ≤ Text.maxWord64 :=
    Nat.le_trans (Nat.le_of_lt w.toNat_lt) (by decide)
  have hheight : b.height.toNat ≤ Text.maxWord64 := Nat.le_of_lt_succ b.height.toNat_lt
  have htransactions : Exact (depth + 4) (listOf WalletTx.toJson b.transactions) :=
    .listOf fun t _ => exact_walletTx t
  exact .ofMembers (by simp [Exact.string, Exact.nat, hword, hheight, htransactions])

theorem exact_rawTransaction {t : RawTransaction} (h : t.height ≤ Text.maxWord64) :
    Exact (depth + 1) t.toJson :=
  .ofMembers (by simp [Exact.string, Exact.nat, h])

theorem exact_utxo {x : AddressUtxo} (h : x.Fits) : Exact (depth + 1) (Utxo.ofNode x).toJson := by
  obtain ⟨hindex, hvalue, hheight⟩ := h
  exact .ofMembers
    (by simp [Utxo.ofNode, Exact.string, Exact.nat, Exact.integer, hindex, hvalue, hheight])

/-- How deep a result or an error may nest, since a response around it is one level more. -/
abbrev innerDepth : Nat := 126

/-- The code of the error has 64 bits, and its detail is read back as it is. -/
structure ApiError.Fits (e : ApiError) : Prop where
  code : Word64 e.code
  data : ∀ d ∈ e.data, Exact 125 d

theorem ApiError.Fits.exact {e : ApiError} (h : e.Fits) : Exact innerDepth e.toJson := by
  refine .ofMembers ?_
  have hcode := Exact.integer 125 h.code
  cases hdata : e.data with
  | none => simp [hcode, Exact.string]
  | some d => simp [hcode, Exact.string, h.data d hdata]

theorem ApiError.fits_ofCode {code : Int} (message : String) (h : Word64 code) :
    (ofCode code message).Fits := ⟨h, nofun⟩

theorem ApiError.fits_ofRetrieval (e : Retrieval.Error) : (ofRetrieval e).Fits := by
  cases e <;> exact fits_ofCode _ (by decide)

theorem ApiError.fits_ofNode {e : Node.Error} (h : ∀ f, e = .failure f → Word64 f.code) :
    (ofNode e).Fits := by
  cases e with
  | failure f =>
      have hcode : Word64 nodeCode := by decide
      refine ⟨hcode, ?_⟩
      rintro _ ⟨⟩
      exact .ofMembers (by simp [Exact.integer 124 (h f rfl)])
  | _ => exact fits_ofCode _ (by decide)

def Sound : Except ApiError Json → Prop
  | .ok v => Exact innerDepth v
  | .error e => e.Fits

def ErrorLast {ε α : Type} (items : List (Except ε α)) : Prop :=
  ∀ item ∈ items.dropLast, ∃ a, item = .ok a

section Items

variable {u : Setup ν} {e : ApiError} {s : Backend ν} {method : String} {params : Option Json}
  {deadline : Option Nat} {α : Type}

theorem errorLast_cons {ε : Type} {a : α} {items : List (Except ε α)} (h : ErrorLast items) :
    ErrorLast (.ok a :: items) := by
  cases items with
  | nil => exact nofun
  | cons item items =>
      exact List.forall_mem_cons.mpr ⟨⟨a, rfl⟩, h⟩

theorem errorLast_upToError {ε : Type} (items : List (Except ε α)) :
    ErrorLast (upToError items) := by
  induction items with
  | nil => exact nofun
  | cons item items ih =>
      cases item with
      | error e => exact nofun
      | ok a => exact errorLast_cons ih

theorem mem_of_mem_upToError {ε : Type} {item : Except ε α} {items : List (Except ε α)}
    (h : item ∈ upToError items) : item ∈ items := by
  induction items with
  | nil => exact h
  | cons first items ih =>
      cases first with
      | error e => exact List.mem_cons.mpr (.inl (List.mem_singleton.mp h))
      | ok a => exact List.mem_cons.mpr ((List.mem_cons.mp h).imp_right ih)

theorem exists_fst_askBy_eq {q : Query α} {r : Except Node.Error α} {p : NodeAccess ν}
    (h : (s.askBy p deadline q).1 = some r) :
    ∃ reply, r = q.read reply ∧ ∃ w, (p.call q.method q.params w).1.2 = reply := by
  unfold Backend.askBy Backend.call at h
  simp only at h
  split at h
  · cases h
    exact ⟨_, rfl, s.world, rfl⟩
  · cases h

theorem fits_of_inTime {q : Query α} {operation : String} (hcodes : u.node.CodesFit)
    (hq : q.PassesOn) (h : inTime operation (s.askBy u.node deadline q).1 = .error e) :
    e.Fits := by
  cases hasked : (s.askBy u.node deadline q).1 with
  | none =>
      rw [hasked] at h
      cases h
      exact ApiError.fits_ofCode _ (by decide)
  | some r =>
      rw [hasked] at h
      cases r with
      | ok a => cases h
      | error err =>
          cases h
          -- a failure is passed on as the node has reported it
          refine ApiError.fits_ofNode fun f hf => ?_
          obtain ⟨reply, hr, w, hw⟩ := exists_fst_askBy_eq hasked
          rw [hf] at hr
          exact hcodes _ _ w f (hw.trans (hq _ _ hr.symm))

theorem exists_reply_of_inTime {q : Query α} {operation : String} {a : α}
    (h : inTime operation (s.askBy u.node deadline q).1 = .ok a) :
    ∃ reply, q.read reply = .ok a := by
  cases hasked : (s.askBy u.node deadline q).1 with
  | none =>
      rw [hasked] at h
      cases h
  | some r =>
      rw [hasked] at h
      cases r with
      | error err => cases h
      | ok a' =>
          cases h
          obtain ⟨reply, hr, -⟩ := exists_fst_askBy_eq hasked
          exact ⟨reply, hr.symm⟩

def Items.Sound : Items → Prop
  | .values vs => ∀ v ∈ vs, Exact innerDepth v
  | _ => True

def Opens (opened : Except ApiError Items) : Prop :=
  (∀ e, opened = .error e → e.Fits) ∧ ∀ items, opened = .ok items → items.Sound

theorem opens_error (h : e.Fits) : Opens (.error e) := ⟨fun _ he => by cases he; exact h, nofun⟩

theorem opens_onParam {β : Type} {d : Decoder β} {f : β → Backend ν → Answered ν Items}
    (hf : ∀ b, Opens (f b s).1) : Opens (onParam d params f s).1 := by
  unfold onParam
  split
  next e he =>
    refine opens_error ?_
    unfold param at he
    split at he
    · cases he
      exact ApiError.fits_ofCode _ (by decide)
    · split at he <;> cases he
      exact ApiError.fits_ofCode _ (by decide)
  next b hb => exact hf b

theorem fits_of_validateAddress {address : String} (h : validateAddress address = .error e) :
    e.Fits := by
  unfold validateAddress at h
  split at h <;> cases h
  exact ApiError.fits_ofCode _ (by decide)

theorem opens_openTxids (hcodes : u.node.CodesFit) (f : AddressFilter) :
    Opens (openTxids u f s).1 := by
  unfold openTxids
  split
  next e he => exact opens_error (fits_of_validateAddress he)
  next =>
    refine ⟨fun e he => ?_, fun items hitems => ?_⟩
    · cases hasked : inTime "GetAddressTxids" (s.askBy u.node (some (streamDeadline u s))
          (.addressTxids [f.address] f.range.start.height f.range.stop.height)).1 with
      | error err =>
          simp only [hasked] at he
          cases he
          exact fits_of_inTime hcodes (Query.passesOn_addressTxids _ _ _) hasked
      | ok txids =>
          simp only [hasked] at he
          cases he
    · obtain ⟨txids, -, rfl⟩ := Outcome.map_eq_ok_iff.mp hitems
      trivial

theorem opens_openUtxos (hcodes : u.node.CodesFit) (a : TransparentAddress) :
    Opens (openUtxos u a s).1 := by
  unfold openUtxos
  split
  next e he => exact opens_error (fits_of_validateAddress he)
  next =>
    refine ⟨fun e he => ?_, fun items hitems => ?_⟩
    · cases hasked : inTime "GetUtxos" (s.askBy u.node (some (streamDeadline u s))
          (.addressUtxos a.address)).1 with
      | error err =>
          simp only [hasked] at he
          cases he
          exact fits_of_inTime hcodes (Query.passesOn_addressUtxos _) hasked
      | ok us =>
          simp only [hasked] at he
          cases he
    · obtain ⟨us, hus, rfl⟩ := Outcome.map_eq_ok_iff.mp hitems
      obtain ⟨reply, hreply⟩ := exists_reply_of_inTime hus
      intro v hv
      obtain ⟨x, hx, rfl⟩ := List.mem_map.mp hv
      exact exact_utxo (Query.fits_of_addressUtxos hreply hx)

/-- What a method with many responses gives when it is opened is sound. -/
theorem opens_openItems (hcodes : u.node.CodesFit) : Opens (openItems u method params s).1 := by
  unfold openItems
  split
  · exact opens_onParam fun r => ⟨nofun, fun items h => by cases h; trivial⟩
  · exact opens_onParam fun f => opens_openTxids hcodes f
  · exact opens_onParam fun a => opens_openUtxos hcodes a
  all_goals exact opens_error (ApiError.fits_ofCode _ (by decide))

theorem sound_renderItem (item : Retrieval.Item) : Sound (renderItem item) := by
  cases item with
  | ok b => exact exact_walletBlock _
  | error e => exact ApiError.fits_ofRetrieval e

theorem sound_foundTransaction {txid : Hash} {found : Option TransactionInfo} {reply : Reply}
    (h : (Query.transaction txid).read reply = .ok found) (text : String) :
    Sound (foundTransaction text (.ok found)) := by
  cases found with
  | none => exact ApiError.fits_ofCode _ (by decide)
  | some t =>
      refine exact_rawTransaction ?_
      unfold RawTransaction.ofInfo
      cases hheight : t.height with
      | none => exact Nat.zero_le _
      | some height => exact Query.height_le_of_transaction h height hheight

theorem sound_lookUp (hcodes : u.node.CodesFit) (deadline : Nat) (txid : Hash) :
    Sound (lookUp u deadline txid s).1 := by
  unfold lookUp
  cases hasked : inTime "GetAddressTxids" (s.askBy u.node (some deadline)
      (.transaction txid)).1 with
  | error e =>
      simp only [hasked]
      exact fits_of_inTime hcodes (Query.passesOn_transaction txid) hasked
  | ok found =>
      obtain ⟨reply, hreply⟩ := exists_reply_of_inTime hasked
      simp only [hasked]
      exact sound_foundTransaction hreply _

theorem sound_lookUpAll (hcodes : u.node.CodesFit) (deadline : Nat) (txids : List Hash) :
    (∀ item ∈ (lookUpAll u deadline txids s).1, Sound item) ∧
      ErrorLast (lookUpAll u deadline txids s).1 := by
  -- every lookup changes the state that the next one begins with
  induction txids generalizing s with
  | nil => exact ⟨nofun, nofun⟩
  | cons txid txids ih =>
      have hfirst : Sound (lookUp u deadline txid s).1 := sound_lookUp hcodes deadline txid
      unfold lookUpAll
      split
      next e s' hlook =>
        rw [hlook] at hfirst
        exact ⟨List.forall_mem_singleton.mpr hfirst, nofun⟩
      next v s' hlook =>
        rw [hlook] at hfirst
        exact ⟨List.forall_mem_cons.mpr ⟨hfirst, ih.1⟩, errorLast_cons ih.2⟩

/-- The items of a stream are sound, and only the last one can be an error. -/
theorem sound_read (hcodes : u.node.CodesFit) {items : Items} (h : items.Sound) :
    (∀ item ∈ (items.read u s).1, Sound item) ∧ ErrorLast (items.read u s).1 := by
  cases items with
  | blocks start stop deadline =>
      rw [Items.read]
      refine ⟨fun item hitem => ?_, errorLast_upToError _⟩
      obtain ⟨b, -, rfl⟩ := List.mem_map.mp (mem_of_mem_upToError hitem)
      exact sound_renderItem b
  | transactions txids deadline =>
      rw [Items.read]
      exact sound_lookUpAll hcodes deadline txids
  | values vs =>
      rw [Items.read]
      refine ⟨fun item hitem => ?_, fun item hitem => ?_⟩
      · obtain ⟨v, hv, rfl⟩ := List.mem_map.mp hitem
        exact h v hv
      · obtain ⟨v, -, rfl⟩ := List.mem_map.mp (List.dropLast_subset _ hitem)
        exact ⟨v, rfl⟩

end Items

end Gateway

end LightServer
