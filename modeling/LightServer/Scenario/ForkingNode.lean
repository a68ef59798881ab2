import LightServer.Backend.Basic
import LightServer.Node.Exchange
import LightServer.Sample.RawBlocks

/-!
# A node that changes its chain

The node serves a chain of sample blocks, and another one of the same heights from the
moment on at which it is asked for a certain height. Heights outside of its chain are not
mined yet. It reports fixed facts about its chain and knows no other methods.
-/

namespace LightServer.Scenario

structure ForkingNode where
  info : Json
  start : Nat
  chain : List Bytes
  otherChain : List Bytes
  switchAt : Option Nat
  asked : List Nat

namespace ForkingNode

def parentHash (b : UInt8) : Hash := Octets.fill 32 b

def ofSamples (info : Json) (start count : Nat) (switchAt : Option Nat) : ForkingNode where
  info := info
  start := start
  chain := Sample.rawChain 0 start (parentHash 0) count
  otherChain := Sample.rawChain 1 start (parentHash 1) count
  switchAt := switchAt
  asked := []

def blockAt? (height : Nat) (n : ForkingNode) : Option Bytes :=
  if height < n.start then none else n.chain[height - n.start]?

def ask (height : Nat) (n : ForkingNode) : ForkingNode :=
  let n := { n with asked := n.asked ++ [height] }
  if n.switchAt = some height then { n with chain := n.otherChain, switchAt := none } else n

def outOfRange : Node.Failure := ⟨Node.Failure.invalidParameter, "Block height out of range"⟩

def unknownMethod : Node.Failure := ⟨-32601, "Method not found"⟩

def heightOf? : List Json → Option Nat
  | .string s :: _ => (Text.readNat Text.maxWord64 s.toList).toOption
  | _ => none

def call (method : String) (params : List Json) (n : ForkingNode) :
    Delayed Node.Reply × ForkingNode :=
  if method = "getblockchaininfo" then
    ((0, Node.readResponse method 200 n.info.compact), n)
  else if method = "getblock" then
    match heightOf? params with
    | none => ((0, .error (.failure outOfRange)), n)
    | some height =>
        let n := n.ask height
        match n.blockAt? height with
        | some b => ((0, .ok (.string (Hex.encode b))), n)
        | none => ((0, .error (.failure outOfRange)), n)
  else ((0, .error (.failure unknownMethod)), n)

def access : NodeAccess ForkingNode := NodeAccess.ofCall call

end ForkingNode

end LightServer.Scenario
