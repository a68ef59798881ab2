import LightServer.Json.Decode
import LightServer.Bytes.Hex
import LightServer.Node.Error

/-!
# Answers of the node

The results of the node's methods, with hashes in the order in which they are
computed and scripts and transactions as bytes.
-/

namespace LightServer.Node

open LightServer.Json

structure ChainInfo where
  chain : String
  height : Nat
  saplingActivation : Option Nat
  branch : String
  deriving DecidableEq, Repr

structure AddressUtxo where
  address : String
  txid : Hash
  index : Nat
  script : Bytes
  value : Int
  height : Nat
  deriving DecidableEq

/-- A transaction, with the height of its block unless it is not mined. -/
structure TransactionInfo where
  data : Bytes
  height : Option Nat
  deriving DecidableEq, Repr

/-- What the node said about a transaction that was handed to it. Code 0 comes with
the hash of the transaction, every other code with a reason. -/
structure SendOutcome where
  code : Int
  message : String
  deriving DecidableEq, Repr

def SendOutcome.Accepted (o : SendOutcome) : Prop := o.code = 0

instance (o : SendOutcome) : Decidable o.Accepted :=
  inferInstanceAs (Decidable (o.code = 0))

def decodeAs {α : Type} (method : String) (d : Decoder α) (v : Json) : Except Error α :=
  match d v with
  | .ok a => .ok a
  | .error e => .error (.decode (method ++ ": " ++ e.message))

def hexAs (what s : String) : Except Error Bytes :=
  match Hex.decode s with
  | .ok b => .ok b
  | .error e => .error (.decode (what ++ ": " ++ e.message))

def hashAs (what s : String) : Except Error Hash :=
  match Octets.ofDisplay 32 s with
  | .ok h => .ok h
  | .error e => .error (.decode (what ++ ": " ++ e.message))

/-- The identifier of the upgrade from which on there are shielded transactions. -/
def saplingBranch : String := "76b809bb"

def upgradeDecoder : Decoder Nat :=
  (Fields.required "activationheight" Decoder.word64).record "UpgradeWire"

/-- The branch of the next block. -/
def consensusDecoder : Decoder String :=
  (Fields.required "nextblock" Decoder.string).record "ConsensusWire"

def ChainInfo.ofParts (chain : String) (blocks : Nat) (upgrades : List (String × Nat))
    (branch : String) : ChainInfo :=
  ⟨chain, blocks, upgrades.lookup saplingBranch, branch⟩

def ChainInfo.decoder : Decoder ChainInfo :=
  (ChainInfo.ofParts <$> Fields.required "chain" Decoder.string <*>
    Fields.required "blocks" Decoder.word64 <*>
    Fields.withDefault "upgrades" (Decoder.map upgradeDecoder) [] <*>
    Fields.required "consensus" consensusDecoder).record "BlockchainInfoWire"

def ChainInfo.ofJson (v : Json) : Except Error ChainInfo :=
  decodeAs "getblockchaininfo" ChainInfo.decoder v

structure UtxoText where
  address : String
  txid : String
  index : Nat
  script : String
  value : Int
  height : Nat
  deriving DecidableEq, Repr

def UtxoText.decoder : Decoder UtxoText :=
  (UtxoText.mk <$> Fields.required "address" Decoder.string <*>
    Fields.required "txid" Decoder.string <*>
    Fields.required "outputIndex" Decoder.word64 <*>
    Fields.required "script" Decoder.string <*>
    Fields.required "satoshis" Decoder.int64 <*>
    Fields.required "height" Decoder.word64).record "UtxoWire"

def AddressUtxo.ofText (u : UtxoText) : Except Error AddressUtxo := do
  let txid ← hashAs "utxo txid" u.txid
  let script ← hexAs "utxo script" u.script
  return ⟨u.address, txid, u.index, script, u.value, u.height⟩

def AddressUtxo.listOfJson (v : Json) : Except Error (List AddressUtxo) := do
  let us ← decodeAs "getaddressutxos" (Decoder.list UtxoText.decoder) v
  us.mapM AddressUtxo.ofText

/-- The text of a transaction and its height, if that is not negative. -/
def transactionDecoder : Decoder (String × Option Int) :=
  (Prod.mk <$> Fields.required "hex" Decoder.string <*>
    Fields.withDefault "height" Decoder.int64.orNull none).record "RawTransactionWire"

def TransactionInfo.ofJson (v : Json) : Except Error TransactionInfo := do
  let (hex, height) ← decodeAs "getrawtransaction" transactionDecoder v
  let data ← hexAs "transaction hex" hex
  return ⟨data, height.bind fun h => if 0 ≤ h then some h.toNat else none⟩

def txidsOfJson (v : Json) : Except Error (List Hash) := do
  let ss ← decodeAs "getaddresstxids" (Decoder.list Decoder.string) v
  ss.mapM (hashAs "txid")

end LightServer.Node
