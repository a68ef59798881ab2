import LightServer.Gateway.Address
import LightServer.Gateway.Unary
import LightServer.Json.Printer

/-!
# Methods with many responses

Such a method is opened first, and what it gives then is read item by item. Only the
opening is counted as a request. The items end with the first error, and nothing is
asked of the node after it. Each item is a response on a line of its own.
-/

namespace LightServer.Gateway

variable {ν : Type}

/-- What an opened method is going to give: the blocks of a range, the transactions of a
list of hashes, or values that are there already. -/
inductive Items where
  | blocks (start stop deadline : Nat)
  | transactions (txids : List Hash) (deadline : Nat)
  | values (vs : List Json)

def inTime {α : Type} (operation : String) :
    Option (Except Node.Error α) → Except ApiError α
  | none => .error (.timeout operation)
  | some r => fromNode r

def streamDeadline (u : Setup ν) (s : Backend ν) : Nat := s.now + u.config.streamTimeout.ceilMillis

def openRange (u : Setup ν) (r : BlockRange) (s : Backend ν) : Answered ν Items :=
  (.ok (.blocks r.start.height r.stop.height
    (s.now + u.retrieval.rangeDeadline.ceilMillis)), s)

def openTxids (u : Setup ν) (f : AddressFilter) (s : Backend ν) : Answered ν Items :=
  match validateAddress f.address with
  | .error e => (.error e, s)
  | .ok () =>
      let deadline := streamDeadline u s
      let (txids, s) := s.askBy u.node (some deadline)
        (.addressTxids [f.address] f.range.start.height f.range.stop.height)
      ((inTime "GetAddressTxids" txids).map (.transactions · deadline), s)

def openUtxos (u : Setup ν) (a : TransparentAddress) (s : Backend ν) : Answered ν Items :=
  match validateAddress a.address with
  | .error e => (.error e, s)
  | .ok () =>
      let (utxos, s) := s.askBy u.node (some (streamDeadline u s)) (.addressUtxos a.address)
      ((inTime "GetUtxos" utxos).map fun us => .values (us.map fun x => (Utxo.ofNode x).toJson), s)

def openItems (u : Setup ν) (method : String) (params : Option Json) (s : Backend ν) :
    Answered ν Items :=
  match Method.ofName? method with
  | some .getBlockRange => onParam BlockRange.decoder params (openRange u) s
  | some .getAddressTxids => onParam AddressFilter.decoder params (openTxids u) s
  | some .getUtxos => onParam TransparentAddress.decoder params (openUtxos u) s
  | some .getLatestBlock | some .getBlock | some .getTransaction | some .sendTransaction
  | some .getLightdInfo =>
      (.error (.invalidRequest (method ++ " is a unary method, use POST /")), s)
  | none => (.error (.methodNotFound method), s)

/-- The items up to the first error, which is the last of them. -/
def upToError {ε α : Type} : List (Except ε α) → List (Except ε α)
  | [] => []
  | .error e :: _ => [.error e]
  | .ok a :: items => .ok a :: upToError items

def lookUp (u : Setup ν) (deadline : Nat) (txid : Hash) (s : Backend ν) : Answered ν Json :=
  let (found, s) := s.askBy u.node (some deadline) (.transaction txid)
  ((inTime "GetAddressTxids" found).bind fun t => foundTransaction txid.display (.ok t), s)

/-- The transactions of a list of hashes, up to the first that cannot be had. -/
def lookUpAll (u : Setup ν) (deadline : Nat) :
    List Hash → Backend ν → List (Except ApiError Json) × Backend ν
  | [], s => ([], s)
  | txid :: txids, s =>
      match lookUp u deadline txid s with
      | (.error e, s) => ([.error e], s)
      | (.ok v, s) =>
          let (items, s) := lookUpAll u deadline txids s
          (.ok v :: items, s)

def Items.read (u : Setup ν) (items : Items) (s : Backend ν) :
    List (Except ApiError Json) × Backend ν :=
  match items with
  | blocks start stop deadline =>
      let (bs, s) := s.readRange u.node u.retrieval.channelCapacity start stop deadline
      (upToError (bs.map renderItem), s)
  | transactions txids deadline => lookUpAll u deadline txids s
  | values vs => (vs.map .ok, s)

def streamEnvelope (u : Setup ν) (e : Envelope) (s : Backend ν) : List Json × Backend ν :=
  let (opened, s) := openItems u e.method e.params s
  let s := countRequest e.method (outcomeOf opened) s
  match opened with
  | .error err => ([errorResponse e.id err], s)
  | .ok items =>
      let (rs, s) := items.read u s
      (rs.map (response e.id), s)

def streamText (u : Setup ν) (text : String) (s : Backend ν) : List Json × Backend ν :=
  match (Json.parse text).elim (.error .malformedBody) Envelope.ofJson with
  | .error e => ([errorResponse none e], s)
  | .ok e => streamEnvelope u e s

def lines (vs : List Json) : String := String.join (vs.map fun v => v.compact ++ "\n")

end LightServer.Gateway
