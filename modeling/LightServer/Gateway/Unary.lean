import LightServer.Gateway.Envelope
import LightServer.Gateway.Setup
import LightServer.Json.Parser

/-!
# Methods with one response

A method with one response reads from the cache or asks the node once. Several requests
can come together in a batch, which is answered one after the other, so that each of
them finds the backend in the state in which the one before has left it.
-/

namespace LightServer.Gateway

variable {ν : Type}

def latestBlock (s : Backend ν) : Except ApiError Json :=
  match s.latestHeight with
  | .ok height => .ok (BlockId.atHeight height).toJson
  | .error e => .error (.ofRetrieval e)

def BlockId.unnamed (id : BlockId) : ApiError :=
  match id.hash with
  | some _ => .unimplemented "GetBlock by hash is not yet implemented"
  | none => .invalidParams "request for unspecified identifier"

def getBlock (u : Setup ν) (id : BlockId) (s : Backend ν) : Answered ν Json :=
  if id.height = 0 then (.error id.unnamed, s)
  else
    let (item, s) := s.readBlock u.node id.height
    (renderItem item, s)

def getTransaction (u : Setup ν) (f : TxFilter) (s : Backend ν) : Answered ν Json :=
  match f.hash with
  | none => (.error (.invalidParams "transaction id required"), s)
  | some text =>
      match Octets.ofDisplay 32 text with
      | .error e => (.error (.ofHash e), s)
      | .ok txid =>
          let (found, s) := s.ask u.node (.transaction txid)
          (foundTransaction text found, s)

def sentLabel (o : Node.SendOutcome) : String :=
  if o.Accepted then "accepted" else "rejected"

/-- Hands a transaction to the node. That the node does not take it is a result. -/
def sendTransaction (u : Setup ν) (t : RawTransaction) (s : Backend ν) : Answered ν Json :=
  match Hex.decode t.data with
  | .error e => (.error (.ofHex e), s)
  | .ok [] => (.error (.invalidParams "empty transaction"), s)
  | .ok raw =>
      match s.ask u.node (.sendTransaction raw) with
      | (.error e, s) => (.error (.ofNode e), s)
      | (.ok o, s) => (.ok (sendResponse o), s.record (.transactionSent (sentLabel o)))

def getServerInfo (u : Setup ν) (s : Backend ν) : Answered ν Json :=
  let (info, s) := s.ask u.node .chainInfo
  ((fromNode info).map (serverInfo u.config.vendor), s)

def onParam {α β : Type} (d : Json.Decoder α) (params : Option Json)
    (f : α → Backend ν → Answered ν β) (s : Backend ν) : Answered ν β :=
  match param d params 0 with
  | .error e => (.error e, s)
  | .ok a => f a s

def callUnary (u : Setup ν) (method : String) (params : Option Json) (s : Backend ν) :
    Answered ν Json :=
  match Method.ofName? method with
  | some .getLatestBlock => (latestBlock s, s)
  | some .getBlock => onParam BlockId.decoder params (getBlock u) s
  | some .getTransaction => onParam TxFilter.decoder params (getTransaction u) s
  | some .sendTransaction => onParam RawTransaction.decoder params (sendTransaction u) s
  | some .getLightdInfo => getServerInfo u s
  | some .getBlockRange | some .getAddressTxids | some .getUtxos =>
      (.error (.invalidRequest (method ++ " is a streaming method, use POST /stream")), s)
  | none => (.error (.methodNotFound method), s)

def answerEnvelope (u : Setup ν) (e : Envelope) (s : Backend ν) : Json × Backend ν :=
  let (result, s) := callUnary u e.method e.params s
  (response e.id result, countRequest e.method (outcomeOf result) s)

def answerOne (u : Setup ν) (request : Json) (s : Backend ν) : Json × Backend ν :=
  match Envelope.ofJson request with
  | .error e => (errorResponse none e, s)
  | .ok e => answerEnvelope u e s

def answerAll (u : Setup ν) : List Json → Backend ν → List Json × Backend ν
  | [], s => ([], s)
  | request :: requests, s =>
      let (r, s) := answerOne u request s
      let (rs, s) := answerAll u requests s
      (r :: rs, s)

def BatchAllowed (c : Config) (n : Nat) : Prop := 0 < n ∧ n ≤ c.maxBatchSize

instance (c : Config) (n : Nat) : Decidable (BatchAllowed c n) :=
  inferInstanceAs (Decidable (0 < n ∧ n ≤ c.maxBatchSize))

def batchError (c : Config) : ApiError :=
  .invalidRequest ("batch must hold 1 to " ++ Text.decimal c.maxBatchSize ++ " requests")

def answerText (u : Setup ν) (text : String) (s : Backend ν) : (Nat × Json) × Backend ν :=
  match Json.parse text with
  | none => ((400, errorResponse none .malformedBody), s)
  | some (.array requests) =>
      if BatchAllowed u.config requests.length then
        let (rs, s) := answerAll u requests s
        ((200, .array rs), s)
      else ((400, errorResponse none (batchError u.config)), s)
  | some request =>
      let (r, s) := answerOne u request s
      ((200, r), s)

end LightServer.Gateway
