import LightServer.Chain.Encoding
import LightServer.Sample.Chains

/-!
# Reading back the stored form

`Reads d x w` says that the decoder `d` takes exactly the bytes `w` from the
front of whatever follows them and gives `x`. Decoders compose as their bytes
do, so each reader is followed through its writer once, and the rest of the
byte string is never named. A block is written faithfully as long as its counts
fit in the eight bytes that they are written in; such a block is `Storable`,
and every block that fits in a memory with 64-bit addresses is.
-/

namespace LightServer

/-- The bound of the counts in the stored form, which are written in eight bytes. -/
def Encoding.countBound : Nat := Nat.pow 256 8

def CompactOutput.Storable (o : CompactOutput) : Prop :=
  o.ciphertext.length < Encoding.countBound

def CompactTx.Storable (t : CompactTx) : Prop :=
  t.spends.length < Encoding.countBound ∧ t.outputs.length < Encoding.countBound ∧
    ∀ o ∈ t.outputs, o.Storable

def CompactBlock.Storable (b : CompactBlock) : Prop :=
  b.header.length < Encoding.countBound ∧ b.transactions.length < Encoding.countBound ∧
    ∀ t ∈ b.transactions, t.Storable

namespace Encoding

/-- The decoder takes exactly the bytes `w` and gives `x`, whatever follows. -/
def Reads {α : Type} (d : Decoder α) (x : α) (w : Bytes) : Prop :=
  ∀ s : Bytes, d (w ++ s) = some (x, s)

theorem Reads.pure {α : Type} (x : α) : Reads (Pure.pure x : Decoder α) x [] := fun _ => rfl

theorem Reads.bind {α β : Type} {d : Decoder α} {f : α → Decoder β} {x : α} {y : β}
    {w v : Bytes} (hd : Reads d x w) (hf : Reads (f x) y v) :
    Reads (d >>= f) y (w ++ v) := by
  intro s
  have hrest : d (w ++ (v ++ s)) = some (x, v ++ s) := hd (v ++ s)
  rw [List.append_assoc]
  change (d (w ++ (v ++ s))).bind (fun p => f p.1 p.2) = some (y, s)
  rw [hrest]
  exact hf s

/-- The last step of a decoder takes no bytes. -/
theorem Reads.bind_pure {α β : Type} {d : Decoder α} {x : α} {w : Bytes} (hd : Reads d x w)
    (f : α → β) : Reads (d >>= fun a => Pure.pure (f a)) (f x) w := by
  have h := hd.bind (f := fun a => Pure.pure (f a)) (Reads.pure (f x))
  rwa [List.append_nil] at h

theorem reads_octets {n : Nat} (x : Octets n) : Reads (octets n) x x.bytes :=
  fun s => Octets.take?_append x s

theorem reads_number {n v : Nat} (hv : v < Nat.pow 256 n) :
    Reads (number n) v (Bytes.leBytes n v) := by
  have h := (reads_octets (Octets.ofNat n v)).bind_pure Octets.toNat
  rw [Octets.toNat_ofNat hv] at h
  exact h

theorem reads_count {v : Nat} (hv : v < countBound) : Reads (number 8) v (Bytes.leBytes 8 v) := by
  unfold countBound at hv
  exact reads_number hv

theorem reads_word64 (v : UInt64) : Reads (number 8) v.toNat (Bytes.leBytes 8 v.toNat) := by
  have hpow : Nat.pow 256 8 = 2 ^ 64 := by decide
  apply reads_number
  rw [hpow]
  exact v.toNat_lt

theorem reads_word32 (v : UInt32) : Reads (number 4) v.toNat (Bytes.leBytes 4 v.toNat) := by
  have hpow : Nat.pow 256 4 = 2 ^ 32 := by decide
  apply reads_number
  rw [hpow]
  exact v.toNat_lt

theorem reads_bytes {x : Bytes} (hx : x.length < countBound) :
    Reads bytes x (writeBytes x) := by
  have hoctets : Reads (octets x.length) (⟨x, rfl⟩ : Octets x.length) x :=
    reads_octets ⟨x, rfl⟩
  exact (reads_count hx).bind (hoctets.bind_pure Octets.bytes)

theorem reads_times {α : Type} {d : Decoder α} {w : α → Bytes} {xs : List α}
    (hd : ∀ x ∈ xs, Reads d x (w x)) : Reads (times d xs.length) xs (xs.flatMap w) := by
  induction xs with
  | nil => exact Reads.pure []
  | cons x xs ih =>
      have hhead : Reads d x (w x) := hd x List.mem_cons_self
      have htail : Reads (times d xs.length) xs (xs.flatMap w) :=
        ih fun y hy => hd y (List.mem_cons_of_mem x hy)
      exact hhead.bind (htail.bind_pure (x :: ·))

theorem reads_list {α : Type} {d : Decoder α} {w : α → Bytes} {xs : List α}
    (hxs : xs.length < countBound) (hd : ∀ x ∈ xs, Reads d x (w x)) :
    Reads (list d) xs (writeList w xs) :=
  (reads_count hxs).bind (reads_times hd)

theorem reads_output {o : CompactOutput} (ho : o.Storable) :
    Reads readOutput o (writeOutput o) := by
  unfold CompactOutput.Storable at ho
  unfold readOutput writeOutput
  rw [List.append_assoc]
  refine (reads_octets o.commitment).bind ?_
  refine (reads_octets o.ephemeralKey).bind ?_
  exact (reads_bytes ho).bind_pure (CompactOutput.mk o.commitment o.ephemeralKey)

theorem reads_tx {t : CompactTx} (ht : t.Storable) : Reads readTx t (writeTx t) := by
  obtain ⟨hspends, houtputs, hstorable⟩ := ht
  have hread : Reads readTx ⟨UInt64.ofNat t.index.toNat, t.hash, UInt32.ofNat t.fee.toNat,
      t.spends, t.outputs⟩ (writeTx t) := by
    unfold readTx writeTx
    simp only [List.append_assoc]
    refine (reads_word64 t.index).bind ?_
    refine (reads_octets t.hash).bind ?_
    refine (reads_word32 t.fee).bind ?_
    refine (reads_list hspends fun x _ => reads_octets x).bind ?_
    exact (reads_list houtputs fun o hmem => reads_output (hstorable o hmem)).bind_pure
      (CompactTx.mk _ t.hash _ t.spends)
  rw [UInt64.ofNat_toNat, UInt32.ofNat_toNat] at hread
  exact hread

/-- A storable block is read back from its stored form, whatever follows it. -/
theorem reads_block {b : CompactBlock} (hb : b.Storable) : Reads readBlock b (writeBlock b) := by
  obtain ⟨hheader, htxs, hstorable⟩ := hb
  have hread : Reads readBlock ⟨UInt32.ofNat b.version.toNat, UInt64.ofNat b.height.toNat, b.hash,
      b.prevHash, UInt32.ofNat b.time.toNat, b.header, b.transactions⟩ (writeBlock b) := by
    unfold readBlock writeBlock
    simp only [List.append_assoc]
    refine (reads_word32 b.version).bind ?_
    refine (reads_word64 b.height).bind ?_
    refine (reads_octets b.hash).bind ?_
    refine (reads_octets b.prevHash).bind ?_
    refine (reads_word32 b.time).bind ?_
    refine (reads_bytes hheader).bind ?_
    exact (reads_list htxs fun t hmem => reads_tx (hstorable t hmem)).bind_pure
      (CompactBlock.mk _ _ b.hash b.prevHash _ b.header)
  rw [UInt32.ofNat_toNat, UInt64.ofNat_toNat, UInt32.ofNat_toNat] at hread
  exact hread

theorem decode_encode {b : CompactBlock} (hb : b.Storable) : decode (encode b) = some b := by
  have h := reads_block hb []
  rw [List.append_nil] at h
  change (readBlock (writeBlock b)).map Prod.fst = some b
  rw [h]
  rfl

end Encoding

/-- In a block without header and transactions there is hardly anything to count. -/
theorem CompactBlock.storable_of_nil {b : CompactBlock} (hheader : b.header = [])
    (htxs : b.transactions = []) : b.Storable := by
  have hzero : 0 < Encoding.countBound := by decide
  unfold Storable
  rw [hheader, htxs]
  exact ⟨hzero, hzero, by simp⟩

namespace Sample

theorem storable_block (salt : UInt8) (height : Nat) (prevHash : Hash) :
    (block salt height prevHash).Storable :=
  CompactBlock.storable_of_nil rfl rfl

def marked (height : Nat) (mark parent : UInt8) : CompactBlock :=
  { block 0 height (Octets.fill 32 parent) with hash := Octets.fill 32 mark }

theorem storable_marked (height : Nat) (mark parent : UInt8) :
    (marked height mark parent).Storable :=
  CompactBlock.storable_of_nil rfl rfl

end Sample

end LightServer
