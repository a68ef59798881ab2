import LightServer.Wire.Transaction
import LightServer.Bytes.Hex

/-!
# Serialized blocks

A block is a header, the count of its transactions, and the transactions. The
first one has to be a coinbase, and where its script commits to a height, that
has to be the height at which the block was asked for; the first block of all is
excused. `parse` accepts a byte string that is exactly one such block and reduces
it to a compact block.
-/

namespace LightServer.Wire

structure Header where
  version : Octets 4
  prevHash : Hash
  merkleRoot : Hash
  saplingRoot : Hash
  time : Octets 4
  bits : Octets 4
  nonce : Octets 32
  solution : Bytes
  deriving DecidableEq

namespace Header

def encode (h : Header) : Bytes :=
  h.version.bytes ++ h.prevHash.bytes ++ h.merkleRoot.bytes ++ h.saplingRoot.bytes ++
    h.time.bytes ++ h.bits.bytes ++ h.nonce.bytes ++ varBytes h.solution

def read : Reader Header := do
  let version ← Reader.take 4 "block version"
  let prevHash ← Reader.take 32 "prev hash"
  let merkleRoot ← Reader.take 32 "merkle root"
  let saplingRoot ← Reader.take 32 "final sapling root"
  let time ← Reader.take 4 "time"
  let bits ← Reader.take 4 "bits"
  let nonce ← Reader.take 32 "nonce"
  let solution ← Reader.varBytes "equihash solution"
  return { version, prevHash, merkleRoot, saplingRoot, time, bits, nonce, solution }

def hash (h : Header) : Hash := Sha256.double h.encode

end Header

structure Block where
  header : Header
  transactions : List Transaction

namespace Block

def encode (b : Block) : Bytes :=
  b.header.encode ++ listBytes Transaction.encode b.transactions

def coinbaseFault? (height : Nat) (t : Transaction) : Option ParseError :=
  match t.coinbaseScript? with
  | none => some .missingCoinbase
  | some script =>
      match coinbaseHeight? script with
      | none => none
      | some found =>
          if height = 0 ∨ found = height then none else some (.heightMismatch height found)

def readCoinbase (height : Nat) : Reader Transaction := do
  let t ← Transaction.read
  match coinbaseFault? height t with
  | none => pure t
  | some fault => Reader.refuse fault

def readTransactions (height : Nat) : Nat → Reader (List Transaction)
  | 0 => Reader.refuse .missingCoinbase
  | n + 1 => do
      let first ← Reader.item (readCoinbase height)
      let others ← Reader.times Transaction.read n
      return first :: others

def readEnd : Reader Unit := fun s =>
  if s.isEmpty then ⟨.ok (), s, 0⟩ else ⟨.error (.trailingBytes s.length), s, 0⟩

def read (height : Nat) : Reader Block := do
  let header ← Header.read
  let n ← Reader.count "tx count" 4
  let transactions ← readTransactions height n
  readEnd
  return { header, transactions }

/-- The shielded transactions, with their positions from `index` on. -/
def compactTransactions : Nat → List Transaction → List CompactTx
  | _, [] => []
  | index, t :: ts =>
      if t.isShielded then t.compact index :: compactTransactions (index + 1) ts
      else compactTransactions (index + 1) ts

def compact (height : UInt64) (b : Block) : CompactBlock where
  version := CompactBlock.currentVersion
  height := height
  hash := b.header.hash
  prevHash := b.header.prevHash
  time := UInt32.ofNat b.header.time.toNat
  header := []
  transactions := compactTransactions 0 b.transactions

end Block

def parse (raw : Bytes) (height : UInt64) : Except ParseError CompactBlock :=
  (Block.read height.toNat raw).outcome.map (Block.compact height)

end LightServer.Wire
