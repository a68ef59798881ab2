import LightServer.Proofs.Bytes.HexText
import LightServer.Proofs.Gateway.Records

/-!
# Blocks as wallets see them

Hashes of blocks and transactions are displayed in reverse order, while nullifiers,
commitments, keys, ciphertexts and headers are written as they are. Each field can be read
back by its own convention, and so can a whole block. So no two blocks look the same to a
wallet.
-/

namespace LightServer

namespace Octets

variable {n : Nat} {s : String} {x : Octets n}

def ofHex? (n : Nat) (s : String) : Option (Octets n) := (Hex.decode s).toOption.bind (ofBytes? n)

theorem ofHex?_hex (x : Octets n) : ofHex? n x.hex = some x := by
  rw [ofHex?, hex, Hex.decode_encode]
  exact ofBytes?_bytes x

theorem ofDisplay_display (x : Octets n) : ofDisplay n x.display = .ok x := by
  rw [ofDisplay, display, hex, Hex.decode_encode]
  simp only [ofBytes?_bytes, reverse_reverse]

theorem exists_ofDisplay_eq_ok_iff :
    (∃ x, ofDisplay n s = .ok x) ↔ s.length = 2 * n ∧ Hex.AllDigits s := by
  simp only [ofDisplay_eq_ok_iff]
  constructor
  · rintro ⟨x, hdigits, hlength, -⟩
    exact ⟨hlength, hdigits⟩
  · rintro ⟨hlength, hdigits⟩
    obtain ⟨x, hx, -⟩ := exists_display_eq hdigits hlength
    exact ⟨x, hdigits, hlength, hx⟩

end Octets

namespace Gateway

open Json

theorem mapM_map_eq_some {α β : Type} {f : α → β} {g : β → Option α} (h : ∀ a, g (f a) = some a)
    (xs : List α) : (xs.map f).mapM g = some xs := by
  induction xs with
  | nil => rfl
  | cons x xs ih =>
      rw [List.map_cons, List.mapM_cons, h, ih]
      rfl

namespace WalletOutput

def toCompact? (o : WalletOutput) : Option CompactOutput := do
  let commitment ← Octets.ofHex? 32 o.commitment
  let ephemeralKey ← Octets.ofHex? 32 o.ephemeralKey
  let ciphertext ← (Hex.decode o.ciphertext).toOption
  return { commitment, ephemeralKey, ciphertext }

theorem toCompact?_ofCompact (o : CompactOutput) : (ofCompact o).toCompact? = some o := by
  simp only [toCompact?, ofCompact, Octets.ofHex?_hex, Hex.decode_encode]
  rfl

theorem toJson_injective : Function.Injective toJson := by
  intro o o' h
  have hmembers := eq_of_ofMembers_eq h (by simp) rfl
  simp only [List.cons.injEq, Prod.mk.injEq, Json.string.injEq, true_and, and_true] at hmembers
  obtain ⟨hcommitment, hephemeralKey, hciphertext⟩ := hmembers
  cases o
  cases o'
  simp_all only

end WalletOutput

namespace WalletTx

def toCompact? (t : WalletTx) : Option CompactTx := do
  let hash ← (Octets.ofDisplay 32 t.hash).toOption
  let spends ← t.spends.mapM (Octets.ofHex? 32)
  let outputs ← t.outputs.mapM WalletOutput.toCompact?
  return { index := t.index, hash, fee := t.fee, spends, outputs }

theorem toCompact?_ofCompact (t : CompactTx) : (ofCompact t).toCompact? = some t := by
  simp only [toCompact?, ofCompact, Octets.ofDisplay_display, mapM_map_eq_some Octets.ofHex?_hex,
    mapM_map_eq_some WalletOutput.toCompact?_ofCompact]
  rfl

theorem toJson_injective : Function.Injective toJson := by
  intro t t' h
  have hspend : Function.Injective fun s => ofMembers [("nf", .string s)] := by
    intro s s' h
    have hmembers := eq_of_ofMembers_eq h (by simp) rfl
    simpa using hmembers
  have hmembers := eq_of_ofMembers_eq h (by simp) rfl
  simp only [List.cons.injEq, Prod.mk.injEq, Json.string.injEq, nat_injective.eq_iff,
    UInt64.toNat_inj, UInt32.toNat_inj, (listOf_injective hspend).eq_iff,
    (listOf_injective WalletOutput.toJson_injective).eq_iff, true_and, and_true] at hmembers
  obtain ⟨hindex, hhash, hfee, hspends, houtputs⟩ := hmembers
  cases t
  cases t'
  simp_all only

end WalletTx

namespace WalletBlock

def toCompact? (b : WalletBlock) : Option CompactBlock := do
  let hash ← (Octets.ofDisplay 32 b.hash).toOption
  let prevHash ← (Octets.ofDisplay 32 b.prevHash).toOption
  let header ← (Hex.decode b.header).toOption
  let transactions ← b.transactions.mapM WalletTx.toCompact?
  return {
    version := b.version, height := b.height, hash, prevHash, time := b.time, header,
    transactions }

theorem toCompact?_ofCompact (b : CompactBlock) : (ofCompact b).toCompact? = some b := by
  simp only [toCompact?, ofCompact, Octets.ofDisplay_display, Hex.decode_encode,
    mapM_map_eq_some WalletTx.toCompact?_ofCompact]
  rfl

theorem toJson_injective : Function.Injective toJson := by
  intro b b' h
  have hmembers := eq_of_ofMembers_eq h (by simp) rfl
  simp only [List.cons.injEq, Prod.mk.injEq, Json.string.injEq, nat_injective.eq_iff,
    UInt64.toNat_inj, UInt32.toNat_inj, (listOf_injective WalletTx.toJson_injective).eq_iff,
    true_and, and_true] at hmembers
  obtain ⟨hversion, hheight, hhash, hprevHash, htime, hheader, htransactions⟩ := hmembers
  cases b
  cases b'
  simp_all only

/-- Blocks in text are written differently if they differ. -/
theorem compact_toJson_injective : Function.Injective fun b : WalletBlock => b.toJson.compact := by
  intro b b' h
  have hparse (b : WalletBlock) : Json.parse b.toJson.compact = some b.toJson :=
    (exact_walletBlock b).parse_compact
  have heq : some b.toJson = some b'.toJson := by
    rw [← hparse b, ← hparse b']
    exact congrArg Json.parse h
  exact toJson_injective (Option.some.inj heq)

theorem ofCompact_injective : Function.Injective ofCompact := by
  intro b b' h
  rw [← Option.some.injEq, ← toCompact?_ofCompact, h, toCompact?_ofCompact]

/-- A displayed hash is 64 hexadecimal digits in either case, and is displayed in lower case. Every
hash and every block is read back from its texts, so what a wallet is sent tells the block. -/
theorem displayed_and_rendered_lossless :
    (∀ s : String, (∃ x : Hash, Octets.ofDisplay 32 s = .ok x) ↔
      s.length = 64 ∧ Hex.AllDigits s) ∧
    (∀ (s : String) (x : Hash), Octets.ofDisplay 32 s = .ok x ↔
      Hex.AllDigits s ∧ s.length = 64 ∧ x.display = s.toLower) ∧
    (∀ x : Hash, Octets.ofDisplay 32 x.display = .ok x) ∧
    (∀ b : CompactBlock, (ofCompact b).toCompact? = some b) ∧
    ∀ b b' : CompactBlock,
      (ofCompact b).toJson.compact = (ofCompact b').toJson.compact ↔ b = b' :=
  ⟨fun _ => Octets.exists_ofDisplay_eq_ok_iff, fun _ _ => Octets.ofDisplay_eq_ok_iff,
    Octets.ofDisplay_display, toCompact?_ofCompact,
    fun _ _ => (compact_toJson_injective.comp ofCompact_injective).eq_iff⟩

end WalletBlock

end Gateway

end LightServer
