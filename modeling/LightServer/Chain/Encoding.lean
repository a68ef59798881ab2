import LightServer.Chain.Block

/-!
# The stored form of compact blocks

Blocks are stored as bytes: numbers in a fixed width with the least significant
byte first, fixed byte strings as they are, and lists and byte strings of free
length after their count in eight bytes. Reading takes a block from the front of
a byte string and does not ask what follows it.
-/

namespace LightServer.Encoding

abbrev Decoder (α : Type) := StateT Bytes Option α

def octets (n : Nat) : Decoder (Octets n) := fun s => Octets.take? n s

def number (n : Nat) : Decoder Nat := do
  return (← octets n).toNat

def times {α : Type} (d : Decoder α) : Nat → Decoder (List α)
  | 0 => pure []
  | n + 1 => do
      let x ← d
      let xs ← times d n
      return x :: xs

def list {α : Type} (d : Decoder α) : Decoder (List α) := do
  times d (← number 8)

def bytes : Decoder Bytes := do
  let n ← number 8
  return (← octets n).bytes

def writeBytes (s : Bytes) : Bytes := Bytes.leBytes 8 s.length ++ s

def writeList {α : Type} (w : α → Bytes) (xs : List α) : Bytes :=
  Bytes.leBytes 8 xs.length ++ xs.flatMap w

def writeOutput (o : CompactOutput) : Bytes :=
  o.commitment.bytes ++ o.ephemeralKey.bytes ++ writeBytes o.ciphertext

def readOutput : Decoder CompactOutput := do
  let commitment ← octets 32
  let ephemeralKey ← octets 32
  let ciphertext ← bytes
  return { commitment, ephemeralKey, ciphertext }

def writeTx (t : CompactTx) : Bytes :=
  Bytes.leBytes 8 t.index.toNat ++ t.hash.bytes ++ Bytes.leBytes 4 t.fee.toNat ++
    writeList Octets.bytes t.spends ++ writeList writeOutput t.outputs

def readTx : Decoder CompactTx := do
  let index ← number 8
  let hash ← octets 32
  let fee ← number 4
  let spends ← list (octets 32)
  let outputs ← list readOutput
  return { index := UInt64.ofNat index, hash, fee := UInt32.ofNat fee, spends, outputs }

def writeBlock (b : CompactBlock) : Bytes :=
  Bytes.leBytes 4 b.version.toNat ++ Bytes.leBytes 8 b.height.toNat ++ b.hash.bytes ++
    b.prevHash.bytes ++ Bytes.leBytes 4 b.time.toNat ++ writeBytes b.header ++
    writeList writeTx b.transactions

def readBlock : Decoder CompactBlock := do
  let version ← number 4
  let height ← number 8
  let hash ← octets 32
  let prevHash ← octets 32
  let time ← number 4
  let header ← bytes
  let transactions ← list readTx
  return {
    version := UInt32.ofNat version, height := UInt64.ofNat height, hash, prevHash,
    time := UInt32.ofNat time, header, transactions }

def encode (b : CompactBlock) : Bytes := writeBlock b

def decode (s : Bytes) : Option CompactBlock := (readBlock.run s).map Prod.fst

end LightServer.Encoding
