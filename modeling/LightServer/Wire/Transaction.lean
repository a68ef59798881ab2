import LightServer.Chain.Block
import LightServer.Bytes.Sha256
import LightServer.Wire.Reader

/-!
# Serialized transactions

A transaction has one of four versions, and the version decides which parts it
has. A part that a version lacks is a byte string of length zero or an empty
list, so one structure and one order of fields serve all versions. `encode`
writes a transaction and `read` takes one from the front of a byte string; the
hash of a transaction is that of its serialization.
-/

namespace LightServer.Wire

inductive Version where
  | one
  | two
  | three
  | four
  deriving DecidableEq, Repr

namespace Version

/-- The first four bytes of a transaction, as a number. Its top bit says that a
version group and an expiry height are present. -/
def header : Version → Nat
  | one => 1
  | two => 2
  | three => 0x80000003
  | four => 0x80000004

def ofHeader? (n : Nat) : Option Version :=
  [one, two, three, four].find? fun v => v.header == n

/-- The size of the version group, and of the expiry height. -/
def stampSize : Version → Nat
  | one | two => 0
  | three | four => 4

def balanceSize : Version → Nat
  | one | two | three => 0
  | four => 8

def hasShielded : Version → Bool
  | one | two | three => false
  | four => true

/-- The size of a joinsplit: its proof is shorter in the last version, and the
first version has none. -/
def joinSplitSize : Version → Nat
  | one => 0
  | two | three => 1802
  | four => 1698

def hasJoinSplits : Version → Bool
  | one => false
  | two | three | four => true

end Version

structure Input where
  prevHash : Hash
  prevIndex : Octets 4
  script : Bytes
  sequence : Octets 4
  deriving DecidableEq

namespace Input

def minSize : Nat := 41

def encode (i : Input) : Bytes :=
  i.prevHash.bytes ++ i.prevIndex.bytes ++ varBytes i.script ++ i.sequence.bytes

def read : Reader Input := do
  let prevHash ← Reader.take 32 "prevout hash"
  let prevIndex ← Reader.take 4 "prevout index"
  let script ← Reader.varBytes "scriptSig"
  let sequence ← Reader.take 4 "sequence"
  return { prevHash, prevIndex, script, sequence }

/-- The input refers to no earlier output. -/
def isNull (i : Input) : Bool :=
  i.prevHash = Octets.zero 32 && i.prevIndex = Octets.fill 4 0xFF

end Input

structure Output where
  value : Octets 8
  script : Bytes
  deriving DecidableEq

namespace Output

def minSize : Nat := 9

def encode (o : Output) : Bytes := o.value.bytes ++ varBytes o.script

def read : Reader Output := do
  let value ← Reader.take 8 "value"
  let script ← Reader.varBytes "scriptPubKey"
  return { value, script }

end Output

/-- A shielded spend: value commitment, anchor, nullifier, key, proof, signature. -/
abbrev Spend := Octets 384

def Spend.nullifier (s : Spend) : Hash := s.slice 64 32 (by omega)

/-- A shielded output: value commitment, note commitment, key, ciphertexts, proof. -/
abbrev ShieldedOutput := Octets 948

def ShieldedOutput.compact (o : ShieldedOutput) : CompactOutput where
  commitment := o.slice 32 32 (by omega)
  ephemeralKey := o.slice 64 32 (by omega)
  ciphertext := (o.slice 96 CompactBlock.noteSize (by decide)).bytes

/-- The joinsplits of a transaction, of `size` bytes each. If there is one at least,
a key and a signature follow. -/
structure JoinSplits (size : Nat) where
  count : Nat
  body : Octets (count * size)
  closing : Octets (if count = 0 then 0 else 96)
  deriving DecidableEq

namespace JoinSplits

def none (size : Nat) : JoinSplits size where
  count := 0
  body := Octets.zero _
  closing := Octets.zero _

def encode {size : Nat} (j : JoinSplits size) : Bytes :=
  compactSize j.count ++ j.body.bytes ++ j.closing.bytes

def read (size : Nat) : Reader (JoinSplits size) := do
  let count ← Reader.count "joinsplit count" size
  let body ← Reader.take (count * size) "joinsplits"
  let closing ← Reader.take _ "joinsplit pubkey and signature"
  return { count, body, closing }

end JoinSplits

structure Transaction where
  version : Version
  group : Octets version.stampSize
  inputs : List Input
  outputs : List Output
  lockTime : Octets 4
  expiry : Octets version.stampSize
  balance : Octets version.balanceSize
  spends : List Spend
  shieldedOutputs : List ShieldedOutput
  joinSplits : JoinSplits version.joinSplitSize
  bindingSignature : Octets (if spends.isEmpty && shieldedOutputs.isEmpty then 0 else 64)

namespace Transaction

def encode (t : Transaction) : Bytes :=
  Bytes.leBytes 4 t.version.header ++ t.group.bytes ++
    listBytes Input.encode t.inputs ++ listBytes Output.encode t.outputs ++
    t.lockTime.bytes ++ t.expiry.bytes ++ t.balance.bytes ++
    (if t.version.hasShielded then
      listBytes Octets.bytes t.spends ++ listBytes Octets.bytes t.shieldedOutputs
    else []) ++
    (if t.version.hasJoinSplits then t.joinSplits.encode else []) ++
    t.bindingSignature.bytes

def readShielded (v : Version) (size : Nat) (counted each : String) :
    Reader (List (Octets size)) :=
  if v.hasShielded then Reader.list counted size (Reader.take size each) else pure []

def readJoinSplits (v : Version) : Reader (JoinSplits v.joinSplitSize) :=
  if v.hasJoinSplits then JoinSplits.read _ else pure (JoinSplits.none _)

def readBody (version : Version) : Reader Transaction := do
  let group ← Reader.take version.stampSize "version group id"
  let inputs ← Reader.list "tx_in count" Input.minSize Input.read
  let outputs ← Reader.list "tx_out count" Output.minSize Output.read
  let lockTime ← Reader.take 4 "lock time"
  let expiry ← Reader.take version.stampSize "expiry height"
  let balance ← Reader.take version.balanceSize "value balance"
  let spends ← readShielded version 384 "spend count" "spend description"
  let shieldedOutputs ← readShielded version 948 "output count" "output description"
  let joinSplits ← readJoinSplits version
  let bindingSignature ← Reader.take _ "binding signature"
  return {
    version, group, inputs, outputs, lockTime, expiry, balance, spends, shieldedOutputs,
    joinSplits, bindingSignature }

def read : Reader Transaction := do
  let header ← Reader.number 4 "tx header"
  match Version.ofHeader? header with
  | some version => readBody version
  | none => Reader.refuse (.unsupportedVersion (header % 0x80000000))

def hash (t : Transaction) : Hash := Sha256.double t.encode

def coinbaseScript? (t : Transaction) : Option Bytes :=
  match t.inputs with
  | [i] => if i.isNull then some i.script else none
  | _ => none

def isShielded (t : Transaction) : Bool := !t.spends.isEmpty || !t.shieldedOutputs.isEmpty

def compact (index : Nat) (t : Transaction) : CompactTx where
  index := UInt64.ofNat index
  hash := t.hash
  fee := 0
  spends := t.spends.map Spend.nullifier
  outputs := t.shieldedOutputs.map ShieldedOutput.compact

end Transaction

/-- The height that a coinbase script commits to, if it begins with a number: a
zero, a small number in one byte, or one to eight bytes after their count. -/
def coinbaseHeight? : Bytes → Option Nat
  | [] => none
  | op :: s =>
      if op = 0 then some 0
      else if 0x51 ≤ op ∧ op ≤ 0x60 then some (op.toNat - 0x50)
      else if 1 ≤ op ∧ op ≤ 8 then (Octets.take? op.toNat s).map fun p => p.1.toNat
      else none

end LightServer.Wire
