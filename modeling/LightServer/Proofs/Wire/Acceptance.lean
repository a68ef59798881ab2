import LightServer.Proofs.Chain.StoredForm
import LightServer.Proofs.Wire.Grammar

/-!
# Which bytes are a block

A byte string is taken for the block at a height exactly if it is the
serialization of a well-formed block whose first transaction is a coinbase that
does not commit to another height. What comes out is then told from the parts of
that block: hashes are those of the bytes of the header and of each transaction,
and of the transactions the shielded ones are left, each with its place in the
block and with the slices of its spends and outputs that wallets look at.
-/

namespace LightServer.Wire

/-- The compact transaction `x` is made of the transaction `t` at the position `i`. -/
structure Transaction.Reduces (t : Transaction) (i : Nat) (x : CompactTx) : Prop where
  index : x.index.toNat = i
  hash : x.hash = Sha256.double t.encode
  fee : x.fee = 0
  spends : x.spends.map Octets.bytes = t.spends.map fun s => (s.bytes.drop 64).take 32
  outputs : x.outputs.map (fun o => (o.commitment.bytes, o.ephemeralKey.bytes, o.ciphertext)) =
    t.shieldedOutputs.map fun o =>
      ((o.bytes.drop 32).take 32, (o.bytes.drop 64).take 32, (o.bytes.drop 96).take 52)

/-- The compact transactions are made, in order, of the transactions with a spend or an output,
the first transaction of all being at the position `i`. -/
inductive ReducesFrom : Nat → List Transaction → List CompactTx → Prop where
  | nil (i : Nat) : ReducesFrom i [] []
  | drop {i : Nat} {t : Transaction} {ts : List Transaction} {xs : List CompactTx}
      (hspends : t.spends = []) (houtputs : t.shieldedOutputs = [])
      (hxs : ReducesFrom (i + 1) ts xs) : ReducesFrom i (t :: ts) xs
  | keep {i : Nat} {t : Transaction} {ts : List Transaction} {x : CompactTx} {xs : List CompactTx}
      (hshielded : t.spends ≠ [] ∨ t.shieldedOutputs ≠ []) (hx : t.Reduces i x)
      (hxs : ReducesFrom (i + 1) ts xs) : ReducesFrom i (t :: ts) (x :: xs)

/-- The compact block `x` is made of the block `b` at a height. -/
structure Block.Reduces (b : Block) (height : UInt64) (x : CompactBlock) : Prop where
  version : x.version = 1
  height : x.height = height
  hash : x.hash = Sha256.double b.header.encode
  prevHash : x.prevHash = b.header.prevHash
  time : x.time.toNat = b.header.time.toNat
  header : x.header = []
  transactions : ReducesFrom 0 b.transactions x.transactions

/-- The first transaction has a single input, which refers to nothing, and above the first block
a height that its script commits to is the right one. -/
def Block.OpensWithCoinbase (height : Nat) (b : Block) : Prop :=
  ∃ t ts i, b.transactions = t :: ts ∧ t.inputs = [i] ∧ i.prevHash.bytes = List.replicate 32 0 ∧
    i.prevIndex.toNat = 0xFFFFFFFF ∧
    (0 < height → ∀ found, coinbaseHeight? i.script = some found → found = height)

section Reduction

variable {t : Transaction} {i : Nat} {x : CompactTx} {ts : List Transaction} {xs : List CompactTx}
  {b : Block}

theorem Transaction.Reduces.eq_compact (h : t.Reduces i x) : x = t.compact i := by
  have hindex : x.index = UInt64.ofNat i := by
    rw [← h.index, UInt64.ofNat_toNat]
  have hspends : x.spends = t.spends.map Spend.nullifier := by
    refine (List.map_inj_right fun _ _ => Octets.ext).mp (h.spends.trans ?_)
    rw [List.map_map]
    rfl
  have houtputs : x.outputs = t.shieldedOutputs.map ShieldedOutput.compact := by
    refine (List.map_inj_right ?_).mp (h.outputs.trans ?_)
    · rintro ⟨commitment, key, text⟩ ⟨commitment', key', text'⟩ heq
      cases Octets.ext (congrArg Prod.fst heq)
      cases Octets.ext (congrArg (fun p => p.2.1) heq)
      cases congrArg (fun p => p.2.2) heq
      rfl
    · rw [List.map_map]
      rfl
  obtain ⟨index, hash, fee, spends, outputs⟩ := x
  cases hindex
  cases h.hash
  cases h.fee
  cases hspends
  cases houtputs
  rfl

theorem Transaction.reduces_compact (hi : i < sizeBound) : t.Reduces i (t.compact i) where
  index := by
    rw [compact, UInt64.toNat_ofNat_of_lt']
    exact hi
  hash := rfl
  fee := rfl
  spends := by
    rw [compact, List.map_map]
    rfl
  outputs := by
    rw [compact, List.map_map]
    rfl

theorem Transaction.isShielded_iff :
    t.isShielded = true ↔ t.spends ≠ [] ∨ t.shieldedOutputs ≠ [] := by
  simp [isShielded]

theorem ReducesFrom.eq_compactTransactions (h : ReducesFrom i ts xs) :
    xs = Block.compactTransactions i ts := by
  induction h with
  | nil i => rfl
  | @drop i t ts xs hspends houtputs _ ih =>
      have hclear : ¬ t.isShielded = true := by
        simp [Transaction.isShielded_iff, hspends, houtputs]
      rw [ih, Block.compactTransactions, if_neg hclear]
  | keep hshielded hx _ ih =>
      rw [ih, hx.eq_compact, Block.compactTransactions,
        if_pos (Transaction.isShielded_iff.mpr hshielded)]

theorem reducesFrom_compactTransactions (hi : i + ts.length ≤ sizeBound) :
    ReducesFrom i ts (Block.compactTransactions i ts) := by
  induction ts generalizing i with
  | nil => exact ReducesFrom.nil i
  | cons t ts ih =>
      rw [List.length_cons] at hi
      have htail := ih (i := i + 1) (by omega)
      unfold Block.compactTransactions
      split
      next hshielded =>
        exact ReducesFrom.keep (Transaction.isShielded_iff.mp hshielded)
          (Transaction.reduces_compact (by omega)) htail
      next hclear =>
        rw [Transaction.isShielded_iff] at hclear
        simp only [ne_eq, not_or, Classical.not_not] at hclear
        exact ReducesFrom.drop hclear.1 hclear.2 htail

theorem Block.Reduces.eq_compact {height : UInt64} {x : CompactBlock} (h : b.Reduces height x) :
    x = b.compact height := by
  have htime : x.time = UInt32.ofNat b.header.time.toNat := by
    rw [← h.time, UInt32.ofNat_toNat]
  obtain ⟨version, height', hash, prevHash, time, header, transactions⟩ := x
  cases h.version
  cases h.height
  cases h.hash
  cases h.prevHash
  cases htime
  cases h.header
  cases h.transactions.eq_compactTransactions
  rfl

theorem Block.reduces_compact (hb : b.WellFormed) (height : UInt64) :
    b.Reduces height (b.compact height) where
  version := rfl
  height := rfl
  hash := rfl
  prevHash := rfl
  time := by
    have hlt : b.header.time.toNat < UInt32.size := b.header.time.toNat_lt
    rw [compact, UInt32.toNat_ofNat_of_lt' hlt]
  header := rfl
  transactions := reducesFrom_compactTransactions (by
    rw [Nat.zero_add]
    exact Nat.le_of_lt hb.count)

theorem Transaction.storable_compact (ht : t.WellFormed) (i : Nat) : (t.compact i).Storable := by
  refine ⟨?_, ?_, ?_⟩
  · rw [compact, List.length_map]
    exact ht.spends
  · rw [compact, List.length_map]
    exact ht.shieldedOutputs
  · intro o ho
    obtain ⟨output, -, rfl⟩ := List.mem_map.mp ho
    have hsize : output.compact.ciphertext.length = CompactBlock.noteSize := Octets.length_eq _
    have hbound : CompactBlock.noteSize < Encoding.countBound := by decide
    rw [← hsize] at hbound
    exact hbound

theorem ReducesFrom.storable (h : ReducesFrom i ts xs) (hts : ∀ t ∈ ts, t.WellFormed) :
    xs.length ≤ ts.length ∧ ∀ x ∈ xs, x.Storable := by
  induction h with
  | nil => exact ⟨Nat.le_refl _, nofun⟩
  | drop _ _ _ ih =>
      rw [List.forall_mem_cons] at hts
      obtain ⟨hlength, hxs⟩ := ih hts.2
      exact ⟨Nat.le_succ_of_le hlength, hxs⟩
  | keep _ hx _ ih =>
      rw [List.forall_mem_cons] at hts
      obtain ⟨hlength, hxs⟩ := ih hts.2
      refine ⟨Nat.succ_le_succ hlength, List.forall_mem_cons.mpr ⟨?_, hxs⟩⟩
      rw [hx.eq_compact]
      exact Transaction.storable_compact hts.1 _

theorem Block.Reduces.storable {height : UInt64} {x : CompactBlock} (h : b.Reduces height x)
    (hb : b.WellFormed) : x.Storable := by
  have hzero : 0 < Encoding.countBound := by decide
  obtain ⟨hlength, hxs⟩ := h.transactions.storable hb.transactions
  refine ⟨?_, Nat.lt_of_le_of_lt hlength hb.count, hxs⟩
  rw [h.header]
  exact hzero

theorem Input.isNull_iff {i : Input} :
    i.isNull = true ↔ i.prevHash.bytes = List.replicate 32 0 ∧ i.prevIndex.toNat = 0xFFFFFFFF := by
  have hhash : i.prevHash = Octets.zero 32 ↔ i.prevHash.bytes = List.replicate 32 0 := Octets.ext_iff
  have hindex : i.prevIndex = Octets.fill 4 0xFF ↔ i.prevIndex.toNat = 0xFFFFFFFF := by
    constructor
    · intro h
      rw [h]
      rfl
    · intro h
      rw [← i.prevIndex.ofNat_toNat, h]
      rfl
  simp only [isNull, Bool.and_eq_true, decide_eq_true_eq, hhash, hindex]

theorem Transaction.coinbaseScript?_eq_some_iff {script : Bytes} :
    t.coinbaseScript? = some script ↔
      ∃ i, t.inputs = [i] ∧ i.isNull = true ∧ i.script = script := by
  unfold coinbaseScript?
  split
  next i hinputs =>
    rw [hinputs]
    constructor
    · intro h
      split at h
      next hnull => exact ⟨i, rfl, hnull, Option.some.inj h⟩
      next => cases h
    · rintro ⟨j, hj, hnull, rfl⟩
      cases hj
      rw [if_pos hnull]
  next hother =>
    refine iff_of_false nofun ?_
    rintro ⟨i, hinputs, -⟩
    exact hother i hinputs

theorem Block.coinbaseFault?_eq_none_iff {height : Nat} :
    coinbaseFault? height t = none ↔ ∃ script, t.coinbaseScript? = some script ∧
      (0 < height → ∀ found, coinbaseHeight? script = some found → found = height) := by
  unfold coinbaseFault?
  cases t.coinbaseScript? with
  | none => simp
  | some script =>
      cases hfound : coinbaseHeight? script with
      | none => simp [hfound]
      | some found =>
          simp only [ite_eq_left_iff, reduceCtorEq, imp_false, Classical.not_not, Option.some.injEq,
            exists_eq_left', hfound, forall_eq']
          omega

theorem Block.opensAt_iff {height : Nat} :
    OpensAt height b.transactions ↔ b.OpensWithCoinbase height := by
  simp only [OpensAt, coinbaseFault?_eq_none_iff, Transaction.coinbaseScript?_eq_some_iff,
    Input.isNull_iff]
  constructor
  · rintro ⟨t, hhead, _, ⟨i, hinputs, ⟨hhash, hindex⟩, rfl⟩, hheight⟩
    obtain ⟨ts, hts⟩ := List.head?_eq_some_iff.mp hhead
    exact ⟨t, ts, i, hts, hinputs, hhash, hindex, hheight⟩
  · rintro ⟨t, ts, i, hts, hinputs, hhash, hindex, hheight⟩
    exact ⟨t, List.head?_eq_some_iff.mpr ⟨ts, hts⟩, _, ⟨i, hinputs, ⟨hhash, hindex⟩, rfl⟩, hheight⟩

end Reduction

section Parse

variable {raw : Bytes} {height : UInt64} {x : CompactBlock}

theorem parse_eq_ok_iff_yields :
    parse raw height = .ok x ↔
      ∃ b rest, (Block.read height.toNat).Yields raw b rest ∧ x = b.compact height := by
  unfold parse Reader.Yields
  generalize Block.read height.toNat raw = reading
  obtain ⟨outcome, rest, items⟩ := reading
  cases outcome with
  | error e => simp [Except.map]
  | ok b => simp [Except.map, eq_comm]

theorem parse_eq_ok_iff_compact :
    parse raw height = .ok x ↔ ∃ b : Block, b.WellFormed ∧ raw = b.encode ∧
      b.OpensWithCoinbase height.toNat ∧ x = b.compact height := by
  simp only [parse_eq_ok_iff_yields, Block.yields_read, Block.opensAt_iff]
  constructor
  · rintro ⟨b, _, ⟨hb, hopens, hraw, rfl⟩, hx⟩
    exact ⟨b, hb, hraw, hopens, hx⟩
  · rintro ⟨b, hb, hraw, hopens, hx⟩
    exact ⟨b, [], ⟨hb, hopens, hraw, rfl⟩, hx⟩

/-- What is parsed can be cached and read back. -/
theorem storable_of_parse (h : parse raw height = .ok x) : x.Storable := by
  obtain ⟨b, hb, -, -, rfl⟩ := parse_eq_ok_iff_compact.mp h
  exact (Block.reduces_compact hb height).storable hb

end Parse

/-- The bytes that parse at a height are those that a well-formed block with a coinbase for that
height is written as, and what they parse to is made of that block. -/
theorem parse_eq_ok_iff_reduces (raw : Bytes) (height : UInt64) (x : CompactBlock) :
    parse raw height = .ok x ↔ ∃ b : Block, b.WellFormed ∧ raw = b.encode ∧
      b.OpensWithCoinbase height.toNat ∧ b.Reduces height x := by
  rw [parse_eq_ok_iff_compact]
  constructor
  · rintro ⟨b, hb, hraw, hopens, rfl⟩
    exact ⟨b, hb, hraw, hopens, Block.reduces_compact hb height⟩
  · rintro ⟨b, hb, hraw, hopens, hx⟩
    exact ⟨b, hb, hraw, hopens, hx.eq_compact⟩

end LightServer.Wire
