import LightServer.Proofs.Wire.Acceptance
import LightServer.Proofs.Wire.CommittedHeight
import LightServer.Proofs.Wire.CompactSize

/-!
# Sample blocks and the parser

A sample block opens with a coinbase, and transactions of two shapes follow. Here
their bytes are written down one part after the other, apart from the grammar that
the parser accepts, and shown to be serializations by it. They are well-formed
whatever their sizes are, so a sample block parses at the height that its coinbase
commits to, and the shielded transactions come out with the bytes that they were
made with. At every other height but zero it is refused for its height, as long as
the coinbase has a height to show.
-/

namespace LightServer

namespace Wire

/-- Bytes that are those of a well-formed block are refused for what is wrong with its first
transaction. -/
theorem parse_eq_error_of_fault {b : Block} {height : UInt64} {t : Transaction}
    {ts : List Transaction} {e : ParseError} (hb : b.WellFormed) (hts : b.transactions = t :: ts)
    (hfault : Block.coinbaseFault? height.toNat t = some e) :
    parse b.encode height = .error e := by
  have hrefuses : (Block.read height.toNat b.encode).outcome = .error e :=
    Block.refuses_read hb hts hfault
  rw [parse, hrefuses]
  rfl

end Wire

namespace Sample

open Wire

def headerBytes (prevHash : Hash) (time : UInt32) : Bytes :=
  Bytes.leBytes 4 4 ++ prevHash.bytes ++ List.replicate 32 0 ++ List.replicate 32 0 ++
    Bytes.leBytes 4 time.toNat ++ Bytes.leBytes 4 0x1D00FFFF ++ List.replicate 32 0 ++
    compactSize 1344 ++ List.replicate 1344 0

def coinbaseScript (height : Nat) : Bytes := heightScript height ++ utf8 "lightwalletd"

def coinbaseBytes (height : Nat) : Bytes :=
  Bytes.leBytes 4 1 ++
    compactSize 1 ++ List.replicate 32 0 ++ Bytes.leBytes 4 0xFFFFFFFF ++
    compactSize (coinbaseScript height).length ++ coinbaseScript height ++
    Bytes.leBytes 4 0xFFFFFFFF ++
    compactSize 1 ++ Bytes.leBytes 8 625000000 ++ compactSize 25 ++ List.replicate 25 0x76 ++
    Bytes.leBytes 4 0

def spendBytes (fill : UInt8) : Bytes :=
  List.replicate 64 0 ++ List.replicate 32 fill ++ List.replicate 288 0

def shieldedOutputBytes (fill : UInt8) : Bytes :=
  List.replicate 32 0 ++ List.replicate 32 (fill + 1) ++ List.replicate 32 (fill + 2) ++
    List.replicate 580 (fill + 3) ++ List.replicate 272 0

/-- How a transaction behind the coinbase of a sample block is made. -/
inductive Shape where
  | shielded (spends outputs : Nat) (fill : UInt8)
  | joined (count : Nat)
  deriving DecidableEq, Repr

namespace Shape

def transaction : Shape → Transaction
  | shielded spends outputs fill => Sample.shielded spends outputs fill
  | joined count => Sample.joined count

def bytes : Shape → Bytes
  | shielded spends outputs fill =>
      Bytes.leBytes 4 0x80000004 ++ Bytes.leBytes 4 0x892F2085 ++
        compactSize 0 ++ compactSize 0 ++
        Bytes.leBytes 4 0 ++ Bytes.leBytes 4 0 ++ Bytes.leBytes 8 0 ++
        compactSize spends ++ (List.replicate spends (spendBytes fill)).flatten ++
        compactSize outputs ++ (List.replicate outputs (shieldedOutputBytes fill)).flatten ++
        compactSize 0 ++ List.replicate (if 0 < spends + outputs then 64 else 0) 0
  | joined count =>
      Bytes.leBytes 4 2 ++ compactSize 0 ++ compactSize 0 ++ Bytes.leBytes 4 0 ++
        compactSize count ++ List.replicate (count * 1802) 0 ++
        List.replicate (if 0 < count then 96 else 0) 0

def Within (bound : Nat) : Shape → Prop
  | shielded spends outputs _ => spends < bound ∧ outputs < bound
  | joined count => count < bound

instance (bound : Nat) (s : Shape) : Decidable (s.Within bound) := by
  cases s <;> unfold Within <;> infer_instance

theorem Within.mono {s : Shape} {n m : Nat} (hs : s.Within n) (h : n ≤ m) : s.Within m := by
  cases s with
  | shielded spends outputs fill => exact ⟨Nat.lt_of_lt_of_le hs.1 h, Nat.lt_of_lt_of_le hs.2 h⟩
  | joined count => exact Nat.lt_of_lt_of_le hs h

/-- What a compact block keeps of a transaction of the shape: nothing unless it has a spend or an
output, and otherwise the bytes that these were made with. -/
def compact? (s : Shape) (index : Nat) : Option CompactTx :=
  match s with
  | shielded spends outputs fill =>
      if 0 < spends + outputs then some {
        index := UInt64.ofNat index
        hash := Sha256.double (shielded spends outputs fill).bytes
        fee := 0
        spends := List.replicate spends (Octets.fill 32 fill)
        outputs := List.replicate outputs {
          commitment := Octets.fill 32 (fill + 1)
          ephemeralKey := Octets.fill 32 (fill + 2)
          ciphertext := List.replicate 52 (fill + 3) } }
      else none
  | joined _ => none

end Shape

/-- The bytes of a sample block with a coinbase for the height and transactions of the given shapes
behind it. -/
def rawBlockOf (prevHash : Hash) (time : UInt32) (height : UInt64) (shapes : List Shape) : Bytes :=
  headerBytes prevHash time ++ compactSize (shapes.length + 1) ++ coinbaseBytes height.toNat ++
    shapes.flatMap Shape.bytes

def blockOf (prevHash : Hash) (time : UInt32) (height : UInt64) (shapes : List Shape) : Block :=
  ⟨header prevHash time, coinbase height.toNat :: shapes.map Shape.transaction⟩

section Blocks

variable {prevHash : Hash} {time : UInt32} {height : UInt64} {shapes : List Shape} {s : Shape}
  {n : Nat}

theorem encode_header : (header prevHash time).encode = headerBytes prevHash time := by
  simp only [Header.encode, headerBytes, varBytes, header, List.length_replicate, List.append_assoc]
  rfl

theorem encode_coinbase (n : Nat) : (coinbase n).encode = coinbaseBytes n := by
  simp only [Transaction.encode, coinbaseBytes, coinbaseScript, varBytes, coinbase, listBytes,
    List.flatMap_cons, List.flatMap_nil, Input.encode, Output.encode, List.append_assoc,
    List.length_replicate]
  rfl

theorem size_bindingSignature (spends outputs : Nat) (x : Spend) (y : ShieldedOutput) :
    (if (List.replicate spends x).isEmpty && (List.replicate outputs y).isEmpty then 0 else 64) =
      if 0 < spends + outputs then 64 else 0 := by
  simp only [List.isEmpty_replicate, Bool.and_eq_true, decide_eq_true_eq]
  by_cases hempty : spends = 0 ∧ outputs = 0
  · rw [if_pos hempty, if_neg (by omega)]
  · rw [if_neg hempty, if_pos (by omega)]

theorem encode_shielded (spends outputs : Nat) (fill : UInt8) :
    (Sample.shielded spends outputs fill).encode = (Shape.shielded spends outputs fill).bytes := by
  simp only [Transaction.encode, Shape.bytes, listBytes, Sample.shielded, Octets.zero, Octets.fill,
    size_bindingSignature, List.flatMap_replicate, List.length_replicate, Version.hasShielded,
    Version.hasJoinSplits, if_true, List.append_assoc]
  rfl

theorem encode_joined (count : Nat) :
    (Sample.joined count).encode = (Shape.joined count).bytes := by
  have hclosing : (if count = 0 then 0 else 96) = if 0 < count then 96 else 0 := by
    by_cases hzero : count = 0
    · rw [if_pos hzero, if_neg (by omega)]
    · rw [if_neg hzero, if_pos (by omega)]
  simp only [Transaction.encode, Shape.bytes, listBytes, Sample.joined, JoinSplits.encode,
    Octets.zero, Octets.fill, hclosing, Version.hasShielded, Version.hasJoinSplits,
    List.isEmpty_nil, Bool.and_self, if_true, Bool.false_eq_true, if_false,
    List.replicate_zero, List.append_nil, List.append_assoc]
  rfl

theorem encode_transaction (s : Shape) : s.transaction.encode = s.bytes := by
  cases s with
  | shielded spends outputs fill => exact encode_shielded spends outputs fill
  | joined count => exact encode_joined count

theorem encode_blockOf :
    (blockOf prevHash time height shapes).encode = rawBlockOf prevHash time height shapes := by
  simp only [rawBlockOf, blockOf, Block.encode, listBytes, List.length_cons, List.length_map,
    List.flatMap_cons, List.flatMap_map, encode_header, encode_coinbase, encode_transaction,
    List.append_assoc]

theorem rawBlock_eq_encode_blockOf (hcount : shapes.length + 1 < 0x100000000) :
    rawBlock prevHash time
      ((coinbase height.toNat).encode :: shapes.map fun s => s.transaction.encode) =
        (blockOf prevHash time height shapes).encode := by
  have hsize : sizeBytes (shapes.length + 1) = compactSize (shapes.length + 1) :=
    sizeBytes_eq hcount
  simp only [rawBlock, blockOf, Block.encode, listBytes, List.flatMap_def, List.map_cons,
    List.map_map, List.length_cons, List.length_map, hsize, List.append_assoc]
  rfl

theorem length_heightScript_le (hn : n < 0x10000000000000000) :
    (heightScript n).length ≤ 10 := by
  by_cases hlarge : 16 < n
  · obtain ⟨-, hnine, -⟩ := length_signedBytes (Nat.zero_lt_of_lt hlarge) hn
    rw [heightScript_of_lt hlarge, List.length_cons]
    omega
  · have hone : 1 ≤ 10 := by decide
    unfold heightScript
    rw [if_pos (show n ≤ 16 by omega)]
    split
    · exact hone
    · exact hone

/-- The sizes of a sample coinbase are small whatever the height is. -/
theorem wellFormed_coinbase (hn : n < 0x10000000000000000) : (coinbase n).WellFormed := by
  have hone : 1 < sizeBound := by decide
  have htag : (utf8 "lightwalletd").length = 12 := by decide
  have hscript : (coinbaseScript n).length < sizeBound := by
    have hle := length_heightScript_le hn
    have hbound : 22 < sizeBound := by decide
    rw [coinbaseScript, List.length_append, htag]
    omega
  have houtput : 25 < sizeBound := by decide
  exact {
    inputs := ⟨hone, List.forall_mem_singleton.mpr hscript⟩
    outputs := ⟨hone, List.forall_mem_singleton.mpr houtput⟩
    spends := sizeBound_pos
    shieldedOutputs := sizeBound_pos
    joinSplits := sizeBound_pos
    without_shielded := fun _ => ⟨rfl, rfl⟩
    without_joinSplits := fun _ => rfl }

theorem wellFormed_transaction (hs : s.Within sizeBound) : s.transaction.WellFormed := by
  cases s with
  | shielded spends outputs fill =>
      exact {
        inputs := ⟨sizeBound_pos, nofun⟩
        outputs := ⟨sizeBound_pos, nofun⟩
        spends := lt_of_eq_of_lt List.length_replicate hs.1
        shieldedOutputs := lt_of_eq_of_lt List.length_replicate hs.2
        joinSplits := sizeBound_pos
        without_shielded := nofun
        without_joinSplits := nofun }
  | joined count =>
      exact {
        inputs := ⟨sizeBound_pos, nofun⟩
        outputs := ⟨sizeBound_pos, nofun⟩
        spends := sizeBound_pos
        shieldedOutputs := sizeBound_pos
        joinSplits := hs
        without_shielded := fun _ => ⟨rfl, rfl⟩
        without_joinSplits := nofun }

theorem wellFormed_blockOf (hcount : shapes.length + 1 < sizeBound)
    (hshapes : ∀ s ∈ shapes, s.Within sizeBound) :
    (blockOf prevHash time height shapes).WellFormed where
  header := by
    have hsolution : (header prevHash time).solution.length = 1344 := List.length_replicate
    have hbound : 1344 < sizeBound := by decide
    exact lt_of_eq_of_lt hsolution hbound
  count := by
    rw [blockOf, List.length_cons, List.length_map]
    exact hcount
  transactions := by
    refine List.forall_mem_cons.mpr ⟨wellFormed_coinbase height.toNat_lt, ?_⟩
    intro t ht
    obtain ⟨s, hs, rfl⟩ := List.mem_map.mp ht
    exact wellFormed_transaction (hshapes s hs)

theorem coinbaseScript?_coinbase (n : Nat) :
    (coinbase n).coinbaseScript? = some (coinbaseScript n) := rfl

/-- The height is read back from the script of a sample coinbase, as far as it has one. -/
theorem coinbaseHeight?_coinbaseScript (hn : n < 0x10000000000000000) :
    coinbaseHeight? (coinbaseScript n) = if n < 0x8000000000000000 then some n else none :=
  coinbaseHeight?_heightScript hn _

theorem opens_blockOf : (blockOf prevHash time height shapes).OpensWithCoinbase height.toNat := by
  refine ⟨_, _, _, rfl, rfl, rfl, rfl, fun _ found hfound => ?_⟩
  have hread := coinbaseHeight?_coinbaseScript height.toNat_lt
  rw [coinbaseScript] at hread
  rw [hread, Option.ite_none_right_eq_some, Option.some.injEq] at hfound
  exact hfound.2.symm

/-- A coinbase with a height to show has a fault at every other height but zero. -/
theorem coinbaseFault?_coinbase {asked : Nat} (hn : n < 0x8000000000000000) (hpos : asked ≠ 0)
    (hne : asked ≠ n) :
    Block.coinbaseFault? asked (coinbase n) = some (.heightMismatch asked n) := by
  have hread := coinbaseHeight?_coinbaseScript (n := n) (by omega)
  rw [if_pos hn] at hread
  unfold Block.coinbaseFault?
  rw [coinbaseScript?_coinbase]
  simp only [hread]
  rw [if_neg (by omega)]

theorem nullifier_spend (b : UInt8) : (spend b).nullifier = Octets.fill 32 b := rfl

theorem compact_shieldedOutput (a b c : UInt8) : (shieldedOutput a b c).compact =
    ⟨Octets.fill 32 a, Octets.fill 32 b, List.replicate 52 c⟩ := rfl

theorem isShielded_shielded (spends outputs : Nat) (fill : UInt8) :
    (Sample.shielded spends outputs fill).isShielded = true ↔ 0 < spends + outputs := by
  simp only [Transaction.isShielded_iff, Sample.shielded, ne_eq, List.replicate_eq_nil_iff]
  omega

theorem compact?_eq (s : Shape) (i : Nat) :
    s.compact? i = if s.transaction.isShielded then some (s.transaction.compact i) else none := by
  cases s with
  | joined count => rfl
  | shielded spends outputs fill =>
      by_cases hpos : 0 < spends + outputs
      · rw [Shape.compact?, if_pos hpos, Shape.transaction,
          if_pos ((isShielded_shielded spends outputs fill).mpr hpos), Transaction.compact]
        simp only [Transaction.hash, encode_shielded]
        simp only [Sample.shielded, List.map_replicate, nullifier_spend, compact_shieldedOutput]
      · rw [Shape.compact?, if_neg hpos, Shape.transaction,
          if_neg (mt (isShielded_shielded spends outputs fill).mp hpos)]

/-- The compact transactions of the shapes are what is kept of each, in order. -/
theorem compactTransactions_map (shapes : List Shape) (i : Nat) :
    Block.compactTransactions i (shapes.map Shape.transaction) =
      (shapes.zipIdx i).filterMap fun s => s.1.compact? s.2 := by
  induction shapes generalizing i with
  | nil => rfl
  | cons s shapes ih =>
      rw [List.map_cons, List.zipIdx_cons, List.filterMap_cons, compact?_eq,
        Block.compactTransactions, ih]
      by_cases hs : s.transaction.isShielded = true
      · rw [if_pos hs, if_pos hs]
      · rw [if_neg hs, if_neg hs]

theorem compact_blockOf : (blockOf prevHash time height shapes).compact height = {
    version := 1
    height := height
    hash := Sha256.double (headerBytes prevHash time)
    prevHash := prevHash
    time := time
    header := []
    transactions := (shapes.zipIdx 1).filterMap fun s => s.1.compact? s.2 } := by
  have htime : UInt32.ofNat (header prevHash time).time.toNat = time := by
    have hbytes : (header prevHash time).time.toNat = time.toNat := Octets.toNat_ofNat time.toNat_lt
    rw [hbytes, UInt32.ofNat_toNat]
  have htransactions : Block.compactTransactions 0 (coinbase height.toNat ::
      shapes.map Shape.transaction) = (shapes.zipIdx 1).filterMap fun s => s.1.compact? s.2 :=
    compactTransactions_map shapes 1
  rw [Block.compact, blockOf, htime, htransactions, Header.hash, encode_header]
  rfl

end Blocks

/-- A sample block is written as its bytes say, and parses at its own height to the parts that it
was made of. Below `2 ^ 63` its coinbase shows the height, and at every other height but zero the
block is refused for that. The bounds are those of the sizes that a sample block can be given. -/
theorem parse_rawBlockOf (prevHash : Hash) (time : UInt32) (height : UInt64) (shapes : List Shape)
    (hcount : shapes.length + 1 < 0x100000000) (hshapes : ∀ s ∈ shapes, s.Within 0x100000000) :
    rawBlock prevHash time
      ((coinbase height.toNat).encode :: shapes.map fun s => s.transaction.encode) =
        rawBlockOf prevHash time height shapes ∧
    parse (rawBlockOf prevHash time height shapes) height = .ok {
      version := 1
      height := height
      hash := Sha256.double (headerBytes prevHash time)
      prevHash := prevHash
      time := time
      header := []
      transactions := (shapes.zipIdx 1).filterMap fun s => s.1.compact? s.2 } ∧
    (height.toNat < 0x8000000000000000 →
      coinbaseHeight? (coinbaseScript height.toNat) = some height.toNat ∧
      ∀ other : UInt64, other ≠ 0 → other ≠ height →
        parse (rawBlockOf prevHash time height shapes) other =
          .error (.heightMismatch other.toNat height.toNat)) := by
  have hbound : 0x100000000 ≤ sizeBound := by decide
  have hblock : (blockOf prevHash time height shapes).WellFormed :=
    wellFormed_blockOf (Nat.lt_of_lt_of_le hcount hbound) fun s hs => (hshapes s hs).mono hbound
  rw [← encode_blockOf, ← compact_blockOf]
  refine ⟨rawBlock_eq_encode_blockOf hcount,
    parse_eq_ok_iff_compact.mpr ⟨_, hblock, rfl, opens_blockOf, rfl⟩, fun hsigned => ⟨?_, ?_⟩⟩
  · rw [coinbaseHeight?_coinbaseScript height.toNat_lt, if_pos hsigned]
  · intro other hpos hne
    refine parse_eq_error_of_fault hblock rfl (coinbaseFault?_coinbase hsigned ?_ ?_)
    · exact fun h => hpos (UInt64.toNat_inj.mp h)
    · exact fun h => hne (UInt64.toNat_inj.mp h)

/-- Two spends and three outputs come out of a block in which they are between transactions that
are dropped, and at the next height the block is refused. -/
theorem parse_rawBlockOf_mixed :
    [Shape.joined 2, .shielded 2 3 254, .shielded 0 0 9].length + 1 < 0x100000000 ∧
    (∀ s ∈ [Shape.joined 2, .shielded 2 3 254, .shielded 0 0 9], s.Within 0x100000000) ∧
    (∃ b, parse (rawBlockOf (Octets.fill 32 7) 1600000000 419200
        [.joined 2, .shielded 2 3 254, .shielded 0 0 9]) 419200 = .ok b ∧
      b.transactions.map (fun t => (t.index, t.spends.length, t.outputs.map (·.commitment))) =
        [(2, 2, List.replicate 3 (Octets.fill 32 255))]) ∧
    parse (rawBlockOf (Octets.fill 32 7) 1600000000 419200
        [.joined 2, .shielded 2 3 254, .shielded 0 0 9]) 419201 =
      .error (.heightMismatch 419201 419200) := by
  have hcount : [Shape.joined 2, .shielded 2 3 254, .shielded 0 0 9].length + 1 < 0x100000000 := by
    decide
  have hshapes : ∀ s ∈ [Shape.joined 2, .shielded 2 3 254, .shielded 0 0 9],
      s.Within 0x100000000 := by decide
  obtain ⟨-, hparse, hother⟩ :=
    parse_rawBlockOf (Octets.fill 32 7) 1600000000 419200 _ hcount hshapes
  exact ⟨hcount, hshapes, ⟨_, hparse, rfl⟩, (hother (by decide)).2 419201 (by decide) (by decide)⟩

end Sample

end LightServer
