import LightServer.Json.Decode
import LightServer.Bytes.Hex
import LightServer.Retrieval.Error

/-!
# Errors that wallets see

An error has a code, a message and perhaps more detail. The codes say what kind of
error it is: a request that is no request, a parameter that is wrong, something that
does not exist or is not there yet, or a failure of the node or of the server.
-/

namespace LightServer.Gateway

structure ApiError where
  code : Int
  message : String
  data : Option Json

namespace ApiError

def ofCode (code : Int) (message : String) : ApiError := ⟨code, message, none⟩

def parseErrorCode : Int := -32700

def invalidRequestCode : Int := -32600

def methodNotFoundCode : Int := -32601

def invalidParamsCode : Int := -32602

def internalCode : Int := -32603

def notFoundCode : Int := -32001

def unavailableCode : Int := -32002

def nodeCode : Int := -32003

def unimplementedCode : Int := -32004

def timeoutCode : Int := -32006

def parseError (details : String) : ApiError :=
  ofCode parseErrorCode ("malformed JSON: " ++ details)

/-- The body is no JSON, whatever is wrong with it. -/
def malformedBody : ApiError := parseError "<json error>"

def invalidRequest (details : String) : ApiError :=
  ofCode invalidRequestCode ("invalid request: " ++ details)

def methodNotFound (method : String) : ApiError :=
  ofCode methodNotFoundCode ("unknown method: " ++ method)

def invalidParams (details : String) : ApiError :=
  ofCode invalidParamsCode ("invalid params: " ++ details)

def internal (details : String) : ApiError := ofCode internalCode ("internal error: " ++ details)

def resourceNotFound (what : String) : ApiError := ofCode notFoundCode ("not found: " ++ what)

def resourceUnavailable (details : String) : ApiError := ofCode unavailableCode details

def unimplemented (details : String) : ApiError := ofCode unimplementedCode details

def timeout (operation : String) : ApiError :=
  ofCode timeoutCode ("deadline exceeded: " ++ operation)

def kind (e : ApiError) : String :=
  if e.code = parseErrorCode ∨ e.code = invalidRequestCode then "bad_request"
  else if e.code = methodNotFoundCode then "method_not_found"
  else if e.code = invalidParamsCode then "invalid_params"
  else if e.code = notFoundCode then "not_found"
  else if e.code = unavailableCode then "unavailable"
  else if e.code = nodeCode then "node"
  else if e.code = unimplementedCode then "unimplemented"
  else if e.code = timeoutCode then "timeout"
  else "internal"

def display (e : ApiError) : String := e.message ++ " (" ++ Text.decimalInt e.code ++ ")"

def toJson (e : ApiError) : Json :=
  Json.ofMembers ([("code", .integer e.code), ("message", .string e.message)] ++
    match e.data with
    | none => []
    | some d => [("data", d)])

def decoder : Json.Decoder ApiError :=
  (ApiError.mk <$> Json.Fields.required "code" Json.Decoder.int32 <*>
    Json.Fields.required "message" Json.Decoder.string <*>
    Json.Fields.withDefault "data" Json.Decoder.any.orNull none).record "ApiError"

def ofRetrieval (e : Retrieval.Error) : ApiError :=
  match e with
  | .notReady => resourceUnavailable e.message
  | .newerThanTip _ _ => resourceUnavailable e.message
  | .notFound height => resourceNotFound ("block " ++ Text.decimal height)
  | .deadlineExceeded _ => timeout e.message
  | .source _ _ => ofCode nodeCode e.message
  | .cache _ => internal e.message
  | .config _ => internal e.message

def ofNode (e : Node.Error) : ApiError :=
  match e with
  | .failure f =>
      ⟨nodeCode, f.display, some (Json.ofMembers [("node_code", .integer f.code)])⟩
  | .transport _ => ofCode nodeCode e.message
  | .decode _ => internal e.message
  | .parse _ _ => internal e.message
  | .config _ => internal e.message

def ofHex (e : HexFault) : ApiError := invalidParams ("bad hex encoding (" ++ e.message ++ ")")

def ofHash (e : HashFault) : ApiError := invalidParams e.message

end ApiError

end LightServer.Gateway
