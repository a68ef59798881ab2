import LightServer.Json.Printer
import LightServer.Node.Answer
import LightServer.Wire.Block

/-!
# Questions to the node

A question is a method with its parameters, and the way in which its answer is
read. Reading is a pure function of the answer, so what a question yields depends
on nothing but what the node said. For a block the answer that its height is not
mined yet is no error, and neither is the answer that a transaction is unknown, or
that the node does not take a transaction.
-/

namespace LightServer.Node

abbrev Reply := Except Error Json

structure Query (α : Type) where
  method : String
  params : List Json
  read : Reply → Except Error α

namespace Query

def textResult (method : String) : Json → Except Error String
  | .string s => .ok s
  | _ => .error (.decode (method ++ ": expected a string result"))

def readBlock (height : Nat) (v : Json) : Except Error CompactBlock := do
  let s ← textResult "getblock" v
  let raw ← hexAs "getblock hex" s
  match Wire.parse raw (UInt64.ofNat height) with
  | .ok b => return b
  | .error e => throw (.parse height e)

def block (height : Nat) : Query (Option CompactBlock) where
  method := "getblock"
  params := [.string (Text.decimal height), .nat 0]
  read
    | .ok v => (readBlock height v).map some
    | .error e => if e.NotYetAvailable then .ok none else .error e

def chainInfo : Query ChainInfo where
  method := "getblockchaininfo"
  params := []
  read reply := reply.bind ChainInfo.ofJson

def sendTransaction (raw : Bytes) : Query SendOutcome where
  method := "sendrawtransaction"
  params := [.string (Hex.encode raw)]
  read
    | .ok v => (textResult "sendrawtransaction" v).map fun s => ⟨0, s⟩
    | .error (.failure f) => .ok ⟨f.code, f.message⟩
    | .error e => .error e

def addressTxids (addresses : List String) (start stop : Nat) : Query (List Hash) where
  method := "getaddresstxids"
  params := [Json.ofMembers [("addresses", .listOf .string addresses), ("start", .nat start),
    ("end", .nat stop)]]
  read reply := reply.bind txidsOfJson

def addressUtxos (address : String) : Query (List AddressUtxo) where
  method := "getaddressutxos"
  params := [Json.ofMembers [("addresses", .array [.string address])]]
  read reply := reply.bind AddressUtxo.listOfJson

def transaction (txid : Hash) : Query (Option TransactionInfo) where
  method := "getrawtransaction"
  params := [.string txid.display, .nat 1]
  read
    | .ok v => (TransactionInfo.ofJson v).map some
    | .error (.failure f) => if f.NotFound then .ok none else .error (.failure f)
    | .error e => .error e

end Query

end LightServer.Node
