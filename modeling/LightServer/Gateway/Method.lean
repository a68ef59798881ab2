/-!
# Methods of the wallet interface

A method answers with one response or with a sequence of them.
-/

namespace LightServer.Gateway

inductive Method where
  | getLatestBlock
  | getBlock
  | getTransaction
  | sendTransaction
  | getLightdInfo
  | getBlockRange
  | getAddressTxids
  | getUtxos
  deriving DecidableEq, Repr

inductive MethodKind where
  | unary
  | streaming
  deriving DecidableEq, Repr

namespace Method

def all : List Method := [getLatestBlock, getBlock, getTransaction, sendTransaction,
  getLightdInfo, getBlockRange, getAddressTxids, getUtxos]

def name : Method → String
  | getLatestBlock => "GetLatestBlock"
  | getBlock => "GetBlock"
  | getTransaction => "GetTransaction"
  | sendTransaction => "SendTransaction"
  | getLightdInfo => "GetLightdInfo"
  | getBlockRange => "GetBlockRange"
  | getAddressTxids => "GetAddressTxids"
  | getUtxos => "GetUtxos"

def kind : Method → MethodKind
  | getLatestBlock | getBlock | getTransaction | sendTransaction | getLightdInfo => .unary
  | getBlockRange | getAddressTxids | getUtxos => .streaming

def ofName? (s : String) : Option Method := all.find? fun m => m.name == s

/-- The name under which requests for a method are counted; unknown ones share one. -/
def label (s : String) : String := if (ofName? s).isSome then s else "unknown"

end Method

end LightServer.Gateway
