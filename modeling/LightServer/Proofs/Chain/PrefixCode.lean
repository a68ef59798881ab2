import LightServer.Cache.Codec
import LightServer.Proofs.Chain.StoredForm

/-!
# The stored form as a prefix code

`Retraces d P w` says that the decoder `d` takes nothing but what `w` writes: if
it gives a value, then the value has the property `P`, and the bytes that were
taken are those that are written for it. A count that is larger than the bytes
that are left cannot be followed by so many values, so such a decoder fails on
it without any check. With the round trip, a byte string is read exactly if it
begins with the stored form of a block, which makes the stored forms a prefix
code.
-/

namespace LightServer

namespace Encoding

variable {α β : Type} {s rest : Bytes}

/-- The decoder takes nothing but what is written for the values with the property `P`. -/
def Retraces (d : Decoder α) (P : α → Prop) (w : α → Bytes) : Prop :=
  ∀ s x rest, d s = some (x, rest) → P x ∧ s = w x ++ rest

theorem run_pure_eq_some_iff {a x : α} :
    (Pure.pure a : Decoder α) s = some (x, rest) ↔ x = a ∧ s = rest := by
  change some (a, s) = some (x, rest) ↔ _
  rw [Option.some.injEq, Prod.mk.injEq, eq_comm]

theorem run_bind_eq_some_iff {d : Decoder α} {f : α → Decoder β} {y : β} :
    (d >>= f) s = some (y, rest) ↔ ∃ x mid, d s = some (x, mid) ∧ f x mid = some (y, rest) := by
  change (d s).bind (fun p => f p.1 p.2) = some (y, rest) ↔ _
  rw [Option.bind_eq_some_iff, Prod.exists]

theorem retraces_octets (n : Nat) : Retraces (octets n) (fun _ => True) Octets.bytes :=
  fun _ _ _ h => ⟨trivial, Octets.eq_append_of_take? h⟩

theorem retraces_number (n : Nat) :
    Retraces (number n) (fun v => v < Nat.pow 256 n) (Bytes.leBytes n) := by
  intro s v rest h
  unfold number at h
  simp only [run_bind_eq_some_iff, run_pure_eq_some_iff] at h
  obtain ⟨x, mid, hx, rfl, rfl⟩ := h
  obtain ⟨-, hs⟩ := retraces_octets n s x mid hx
  have hbytes := congrArg Octets.bytes x.ofNat_toNat
  exact ⟨x.toNat_lt, by rw [hs, ← hbytes]; rfl⟩

theorem retraces_count :
    Retraces (number 8) (fun v => v < countBound) (Bytes.leBytes 8) := by
  unfold countBound
  exact retraces_number 8

/-- A number of eight bytes is that of the word that is made of it. -/
theorem eq_of_number_word64 {v : Nat} (h : number 8 s = some (v, rest)) :
    s = Bytes.leBytes 8 (UInt64.ofNat v).toNat ++ rest := by
  obtain ⟨hv, hs⟩ := retraces_number 8 s v rest h
  have hpow : Nat.pow 256 8 = 2 ^ 64 := by decide
  rw [hpow] at hv
  rw [UInt64.toNat_ofNat', Nat.mod_eq_of_lt hv]
  exact hs

theorem eq_of_number_word32 {v : Nat} (h : number 4 s = some (v, rest)) :
    s = Bytes.leBytes 4 (UInt32.ofNat v).toNat ++ rest := by
  obtain ⟨hv, hs⟩ := retraces_number 4 s v rest h
  have hpow : Nat.pow 256 4 = 2 ^ 32 := by decide
  rw [hpow] at hv
  rw [UInt32.toNat_ofNat', Nat.mod_eq_of_lt hv]
  exact hs

theorem retraces_bytes : Retraces bytes (fun x => x.length < countBound) writeBytes := by
  intro s x rest h
  unfold bytes at h
  simp only [run_bind_eq_some_iff, run_pure_eq_some_iff] at h
  obtain ⟨n, mid, hn, y, mid', hy, rfl, rfl⟩ := h
  obtain ⟨hbound, rfl⟩ := retraces_count s n mid hn
  obtain ⟨-, rfl⟩ := retraces_octets n mid y mid' hy
  refine ⟨lt_of_eq_of_lt y.length_eq hbound, ?_⟩
  rw [writeBytes, y.length_eq, List.append_assoc]

theorem Retraces.times {d : Decoder α} {P : α → Prop} {w : α → Bytes} (hd : Retraces d P w)
    (n : Nat) :
    Retraces (times d n) (fun xs => xs.length = n ∧ ∀ x ∈ xs, P x) (List.flatMap w) := by
  induction n with
  | zero =>
      intro s xs rest h
      obtain ⟨rfl, rfl⟩ := run_pure_eq_some_iff.mp h
      exact ⟨⟨rfl, nofun⟩, rfl⟩
  | succ n ih =>
      intro s xs rest h
      unfold Encoding.times at h
      simp only [run_bind_eq_some_iff, run_pure_eq_some_iff] at h
      obtain ⟨x, mid, hx, ys, mid', hys, rfl, rfl⟩ := h
      obtain ⟨hPx, rfl⟩ := hd s x mid hx
      obtain ⟨⟨hlength, hPys⟩, rfl⟩ := ih mid ys mid' hys
      refine ⟨⟨congrArg (· + 1) hlength, List.forall_mem_cons.mpr ⟨hPx, hPys⟩⟩, ?_⟩
      rw [List.flatMap_cons, List.append_assoc]

theorem Retraces.list {d : Decoder α} {P : α → Prop} {w : α → Bytes} (hd : Retraces d P w) :
    Retraces (list d) (fun xs => xs.length < countBound ∧ ∀ x ∈ xs, P x) (writeList w) := by
  intro s xs rest h
  unfold Encoding.list at h
  obtain ⟨n, mid, hn, hxs⟩ := run_bind_eq_some_iff.mp h
  obtain ⟨hbound, rfl⟩ := retraces_count s n mid hn
  obtain ⟨⟨rfl, hP⟩, rfl⟩ := hd.times n mid xs rest hxs
  rw [writeList, List.append_assoc]
  exact ⟨⟨hbound, hP⟩, rfl⟩

theorem retraces_output : Retraces readOutput CompactOutput.Storable writeOutput := by
  intro s o rest h
  unfold readOutput at h
  simp only [run_bind_eq_some_iff, run_pure_eq_some_iff] at h
  obtain ⟨commitment, s₁, hcommitment, key, s₂, hkey, ciphertext, s₃, hciphertext, rfl, rfl⟩ := h
  obtain ⟨-, rfl⟩ := retraces_octets 32 _ _ _ hcommitment
  obtain ⟨-, rfl⟩ := retraces_octets 32 _ _ _ hkey
  obtain ⟨hstorable, rfl⟩ := retraces_bytes _ _ _ hciphertext
  refine ⟨hstorable, ?_⟩
  simp only [writeOutput, List.append_assoc]

theorem retraces_tx : Retraces readTx CompactTx.Storable writeTx := by
  intro s t rest h
  unfold readTx at h
  simp only [run_bind_eq_some_iff, run_pure_eq_some_iff] at h
  obtain ⟨index, s₁, hindex, hash, s₂, hhash, fee, s₃, hfee, spends, s₄, hspends, outputs, s₅,
    houtputs, rfl, rfl⟩ := h
  obtain rfl := eq_of_number_word64 hindex
  obtain ⟨-, rfl⟩ := retraces_octets 32 _ _ _ hhash
  obtain rfl := eq_of_number_word32 hfee
  obtain ⟨⟨hspent, -⟩, rfl⟩ := (retraces_octets 32).list _ _ _ hspends
  obtain ⟨hput, rfl⟩ := retraces_output.list _ _ _ houtputs
  refine ⟨⟨hspent, hput⟩, ?_⟩
  simp only [writeTx, List.append_assoc]

theorem retraces_block : Retraces readBlock CompactBlock.Storable writeBlock := by
  intro s b rest h
  unfold readBlock at h
  simp only [run_bind_eq_some_iff, run_pure_eq_some_iff] at h
  obtain ⟨version, s₁, hversion, height, s₂, hheight, hash, s₃, hhash, prevHash, s₄, hprevHash,
    time, s₅, htime, header, s₆, hheader, txs, s₇, htxs, rfl, rfl⟩ := h
  obtain rfl := eq_of_number_word32 hversion
  obtain rfl := eq_of_number_word64 hheight
  obtain ⟨-, rfl⟩ := retraces_octets 32 _ _ _ hhash
  obtain ⟨-, rfl⟩ := retraces_octets 32 _ _ _ hprevHash
  obtain rfl := eq_of_number_word32 htime
  obtain ⟨hhead, rfl⟩ := retraces_bytes _ _ _ hheader
  obtain ⟨htx, rfl⟩ := retraces_tx.list _ _ _ htxs
  refine ⟨⟨hhead, htx⟩, ?_⟩
  simp only [writeBlock, List.append_assoc]

/-- A byte string is read exactly if it begins with the stored form of a storable block. -/
theorem decode_eq_some_iff {d : Bytes} {b : CompactBlock} :
    decode d = some b ↔ b.Storable ∧ encode b <+: d := by
  constructor
  · intro h
    obtain ⟨⟨x, rest⟩, hread, rfl⟩ := Option.map_eq_some_iff.mp h
    obtain ⟨hstorable, hd⟩ := retraces_block d x rest hread
    exact ⟨hstorable, rest, hd.symm⟩
  · rintro ⟨hstorable, rest, rfl⟩
    exact Option.map_eq_some_iff.mpr ⟨(b, rest), reads_block hstorable rest, rfl⟩

theorem eq_of_encode_isPrefix {a b : CompactBlock} (ha : a.Storable) (hb : b.Storable)
    (h : encode a <+: encode b) : a = b := by
  have hread := decode_eq_some_iff.mpr ⟨ha, h⟩
  rw [decode_encode hb] at hread
  exact (Option.some.inj hread).symm

end Encoding

namespace EntryCodec

/-- The codec writes the blocks with the property `P` as a prefix code, and it reads what begins
with a word of that code and nothing else. -/
structure IsPrefixCode (k : EntryCodec) (P : CompactBlock → Prop) : Prop where
  reads_written : ∀ b, P b → ∃ data, k.encode b = .ok data ∧
    ∀ rest, k.decode (data ++ rest) = .ok b
  decode_eq_ok_iff : ∀ d b, k.decode d = .ok b ↔
    P b ∧ ∃ data, k.encode b = .ok data ∧ data <+: d
  error_of_cut : ∀ b data d, P b → k.encode b = .ok data → d <+: data → d ≠ data →
    ∃ e, k.decode d = .error e
  injective : ∀ a b data, P a → P b → k.encode a = .ok data → k.encode b = .ok data → a = b
  prefix_free : ∀ a b data data', P a → P b → k.encode a = .ok data → k.encode b = .ok data' →
    data <+: data' → data = data'

theorem decode_standard_eq_ok_iff {d : Bytes} {b : CompactBlock} :
    standard.decode d = .ok b ↔ b.Storable ∧ Encoding.encode b <+: d := by
  rw [← Encoding.decode_eq_some_iff]
  simp only [standard]
  split
  next hread => rw [hread, Except.ok.injEq, Option.some.injEq]
  next hread => simp [hread]

/-- What ends too early is refused: the block that could be read from it would be the whole one. -/
theorem exists_error_of_cut {b : CompactBlock} {d : Bytes} (hb : b.Storable)
    (hpre : d <+: Encoding.encode b) (hne : d ≠ Encoding.encode b) :
    ∃ e, standard.decode d = .error e := by
  cases hread : standard.decode d with
  | error e => exact ⟨e, rfl⟩
  | ok a =>
      obtain ⟨ha, hword⟩ := decode_standard_eq_ok_iff.mp hread
      obtain rfl := Encoding.eq_of_encode_isPrefix ha hb (hword.trans hpre)
      exact absurd (hpre.eq_of_length_le hword.length_le) hne

/-- The stored forms of storable blocks are a prefix code, and nothing else is read. -/
theorem isPrefixCode_standard : standard.IsPrefixCode CompactBlock.Storable where
  reads_written b hb :=
    ⟨_, rfl, fun rest => decode_standard_eq_ok_iff.mpr ⟨hb, List.prefix_append _ rest⟩⟩
  decode_eq_ok_iff d b := by
    rw [decode_standard_eq_ok_iff]
    refine and_congr_right fun _ => ⟨fun hword => ⟨_, rfl, hword⟩, ?_⟩
    rintro ⟨data, ⟨⟩, hword⟩
    exact hword
  error_of_cut b data d hb hdata hpre hne := by
    cases hdata
    exact exists_error_of_cut hb hpre hne
  injective a b data ha hb hdata hdata' := by
    cases hdata
    have hsame : Encoding.encode b = Encoding.encode a := Except.ok.inj hdata'
    exact Encoding.eq_of_encode_isPrefix ha hb ⟨[], by rw [List.append_nil, hsame]⟩
  prefix_free a b data data' ha hb hdata hdata' hpre := by
    cases hdata
    cases hdata'
    rw [Encoding.eq_of_encode_isPrefix ha hb hpre]

end EntryCodec

end LightServer
