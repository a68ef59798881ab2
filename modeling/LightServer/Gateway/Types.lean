import LightServer.Json.Decode
import LightServer.Bytes.Hex
import LightServer.Node.Answer

/-!
# What wallets send and receive

The records of the wallet interface. Hashes of blocks and transactions are displayed
with their bytes in reverse order; nullifiers, commitments and keys are plain
hexadecimal text.
-/

namespace LightServer.Gateway

open LightServer.Json

/-- Names a block by its height or its hash. Height 0 means that none is given. -/
structure BlockId where
  height : Nat
  hash : Option String
  deriving DecidableEq, Repr

namespace BlockId

def atHeight (height : Nat) : BlockId := ⟨height, none⟩

def decoder : Decoder BlockId :=
  (BlockId.mk <$> Fields.withDefault "height" Decoder.word64 0 <*>
    Fields.withDefault "hash" Decoder.string.orNull none).record "BlockId"

def toJson (b : BlockId) : Json :=
  Json.ofMembers (("height", .nat b.height) ::
    match b.hash with
    | none => []
    | some s => [("hash", .string s)])

end BlockId

structure BlockRange where
  start : BlockId
  stop : BlockId
  deriving DecidableEq, Repr

namespace BlockRange

def decoder : Decoder BlockRange :=
  (BlockRange.mk <$> Fields.required "start" BlockId.decoder <*>
    Fields.required "end" BlockId.decoder).record "BlockRange"

def toJson (r : BlockRange) : Json :=
  Json.ofMembers [("start", r.start.toJson), ("end", r.stop.toJson)]

end BlockRange

/-- Names a transaction. Only its hash is looked at. -/
structure TxFilter where
  block : Option BlockId
  index : Nat
  hash : Option String
  deriving DecidableEq, Repr

namespace TxFilter

def decoder : Decoder TxFilter :=
  (TxFilter.mk <$> Fields.withDefault "block" BlockId.decoder.orNull none <*>
    Fields.withDefault "index" Decoder.word64 0 <*>
    Fields.withDefault "hash" Decoder.string.orNull none).record "TxFilter"

def toJson (f : TxFilter) : Json :=
  Json.ofMembers [("block", .orNull BlockId.toJson f.block), ("index", .nat f.index),
    ("hash", .orNull .string f.hash)]

end TxFilter

/-- A transaction as hexadecimal text, with the height of its block, 0 if it has none. -/
structure RawTransaction where
  data : String
  height : Nat
  deriving DecidableEq, Repr

namespace RawTransaction

def decoder : Decoder RawTransaction :=
  (RawTransaction.mk <$> Fields.required "data" Decoder.string <*>
    Fields.withDefault "height" Decoder.word64 0).record "RawTransaction"

def toJson (t : RawTransaction) : Json :=
  Json.ofMembers [("data", .string t.data), ("height", .nat t.height)]

def ofInfo (t : Node.TransactionInfo) : RawTransaction := ⟨Hex.encode t.data, t.height.getD 0⟩

end RawTransaction

structure TransparentAddress where
  address : String
  deriving DecidableEq, Repr

def TransparentAddress.decoder : Decoder TransparentAddress :=
  (TransparentAddress.mk <$> Fields.required "address" Decoder.string).record
    "TransparentAddress"

structure AddressFilter where
  address : String
  range : BlockRange
  deriving DecidableEq, Repr

namespace AddressFilter

def decoder : Decoder AddressFilter :=
  (AddressFilter.mk <$> Fields.required "address" Decoder.string <*>
    Fields.required "range" BlockRange.decoder).record "TransparentAddressBlockFilter"

def toJson (f : AddressFilter) : Json :=
  Json.ofMembers [("address", .string f.address), ("range", f.range.toJson)]

end AddressFilter

def sendResponse (o : Node.SendOutcome) : Json :=
  Json.ofMembers [("error_code", .integer o.code), ("error_message", .string o.message)]

def version : String := "0.1.0"

def serverVersion : String := "lwd-" ++ version

def serverInfo (vendor : String) (c : Node.ChainInfo) : Json :=
  Json.ofMembers [("version", .string serverVersion), ("vendor", .string vendor),
    ("taddr_support", .bool true), ("chain_name", .string c.chain),
    ("sapling_activation_height", .nat (c.saplingActivation.getD 0)),
    ("consensus_branch_id", .string c.branch), ("block_height", .nat c.height)]

structure Utxo where
  address : String
  txid : String
  index : Nat
  script : String
  value : Int
  height : Nat
  deriving DecidableEq, Repr

namespace Utxo

def ofNode (u : Node.AddressUtxo) : Utxo :=
  ⟨u.address, u.txid.display, u.index, Hex.encode u.script, u.value, u.height⟩

def toJson (u : Utxo) : Json :=
  Json.ofMembers [("address", .string u.address), ("txid", .string u.txid),
    ("index", .nat u.index), ("script", .string u.script), ("value_zat", .integer u.value),
    ("height", .nat u.height)]

end Utxo

structure WalletOutput where
  commitment : String
  ephemeralKey : String
  ciphertext : String
  deriving DecidableEq, Repr

structure WalletTx where
  index : UInt64
  hash : String
  fee : UInt32
  spends : List String
  outputs : List WalletOutput
  deriving DecidableEq, Repr

structure WalletBlock where
  version : UInt32
  height : UInt64
  hash : String
  prevHash : String
  time : UInt32
  header : String
  transactions : List WalletTx
  deriving DecidableEq, Repr

namespace WalletOutput

def ofCompact (o : CompactOutput) : WalletOutput :=
  ⟨o.commitment.hex, o.ephemeralKey.hex, Hex.encode o.ciphertext⟩

def toJson (o : WalletOutput) : Json :=
  Json.ofMembers [("cmu", .string o.commitment), ("epk", .string o.ephemeralKey),
    ("ciphertext", .string o.ciphertext)]

end WalletOutput

namespace WalletTx

def ofCompact (t : CompactTx) : WalletTx :=
  ⟨t.index, t.hash.display, t.fee, t.spends.map Octets.hex, t.outputs.map .ofCompact⟩

def toJson (t : WalletTx) : Json :=
  Json.ofMembers [("index", .nat t.index.toNat), ("hash", .string t.hash),
    ("fee", .nat t.fee.toNat),
    ("spends", .listOf (fun s => Json.ofMembers [("nf", .string s)]) t.spends),
    ("outputs", .listOf WalletOutput.toJson t.outputs)]

end WalletTx

namespace WalletBlock

def ofCompact (b : CompactBlock) : WalletBlock :=
  ⟨b.version, b.height, b.hash.display, b.prevHash.display, b.time, Hex.encode b.header,
    b.transactions.map .ofCompact⟩

def toJson (b : WalletBlock) : Json :=
  Json.ofMembers [("proto_version", .nat b.version.toNat), ("height", .nat b.height.toNat),
    ("hash", .string b.hash), ("prev_hash", .string b.prevHash), ("time", .nat b.time.toNat),
    ("header", .string b.header), ("vtx", .listOf WalletTx.toJson b.transactions)]

end WalletBlock

end LightServer.Gateway
