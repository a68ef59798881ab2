import LightServer.Gateway.Method
import LightServer.Gateway.Error

/-!
# Requests and responses of the wallet interface

A request is an object with the name of a method, and perhaps an identifier and
parameters. A response carries the identifier of its request and either a result or an
error. A value that is no request is answered with an error without an identifier.
-/

namespace LightServer.Gateway

structure Envelope where
  id : Option Json
  method : String
  params : Option Json

namespace Envelope

/-- The longest identifier that is a string, in bytes. -/
def maxIdLength : Nat := 256

def idFault? : Json → Option String
  | .null => some "null id (notifications not supported)"
  | .string s =>
      if s.isEmpty then some "empty string id"
      else if maxIdLength < s.utf8ByteSize then some "id string too long (max 256 chars)"
      else none
  | .integer _ | .float _ => none
  | .bool _ | .array _ | .object _ => some "id must be string or number"

def ofJson : Json → Except ApiError Envelope
  | .object ms =>
      let id := Json.lookup "id" ms
      match id.bind idFault?, Json.lookup "method" ms with
      | some text, _ => .error (.invalidRequest text)
      | none, some (.string method) => .ok ⟨id, method, Json.lookup "params" ms⟩
      | none, _ => .error (.invalidRequest "missing method")
  | _ => .error (.invalidRequest "request must be an object")

end Envelope

def resultResponse (id : Option Json) (v : Json) : Json :=
  Json.ofMembers [("jsonrpc", .string "2.0"), ("id", id.getD .null), ("result", v)]

def errorResponse (id : Option Json) (e : ApiError) : Json :=
  Json.ofMembers [("jsonrpc", .string "2.0"), ("id", id.getD .null), ("error", e.toJson)]

def response (id : Option Json) : Except ApiError Json → Json
  | .ok v => resultResponse id v
  | .error e => errorResponse id e

/-- The parameter at a position. A value that is no array is the first parameter. -/
def paramAt? (params : Option Json) (index : Nat) : Option Json :=
  match params with
  | none => none
  | some (.array xs) => xs[index]?
  | some v => if index = 0 then some v else none

def param {α : Type} (d : Json.Decoder α) (params : Option Json) (index : Nat) :
    Except ApiError α :=
  match paramAt? params index with
  | none => .error (.invalidParams ("missing parameter at index " ++ Text.decimal index))
  | some v =>
      match d v with
      | .ok a => .ok a
      | .error e =>
          .error (.invalidParams
            ("invalid parameter at index " ++ Text.decimal index ++ ": " ++ e.message))

end LightServer.Gateway
