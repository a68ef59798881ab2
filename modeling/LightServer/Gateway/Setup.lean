import LightServer.Backend.Retrieval
import LightServer.Gateway.Config
import LightServer.Gateway.Error
import LightServer.Gateway.Method
import LightServer.Gateway.Types

/-!
# What the gateway works with

The gateway has access to the node, and has its own settings and those of block
retrieval. It answers from a backend, which every request leaves in a new state.
-/

namespace LightServer.Gateway

structure Setup (ν : Type) where
  node : NodeAccess ν
  config : Config
  retrieval : Retrieval.Config

abbrev Answered (ν α : Type) := Except ApiError α × Backend ν

def renderItem : Retrieval.Item → Except ApiError Json
  | .ok b => .ok (WalletBlock.ofCompact b).toJson
  | .error e => .error (.ofRetrieval e)

def fromNode {α : Type} : Except Node.Error α → Except ApiError α
  | .ok a => .ok a
  | .error e => .error (.ofNode e)

def foundTransaction (txid : String) :
    Except Node.Error (Option Node.TransactionInfo) → Except ApiError Json
  | .ok (some t) => .ok (RawTransaction.ofInfo t).toJson
  | .ok none => .error (.resourceNotFound ("transaction " ++ txid))
  | .error e => .error (.ofNode e)

def outcomeOf {α : Type} : Except ApiError α → String
  | .ok _ => "ok"
  | .error e => e.kind

/-- Counts a request for a method and its outcome, and failures of the server and of the
node once more. -/
def countRequest {ν : Type} (method outcome : String) (s : Backend ν) : Backend ν :=
  let s := (s.record (.requestTimed (Method.label method))).record
    (.requested (Method.label method) outcome)
  if outcome = "internal" ∨ outcome = "node" then s.record (.subsystemError "gateway" outcome)
  else s

end LightServer.Gateway
