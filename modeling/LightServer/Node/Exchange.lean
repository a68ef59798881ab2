import LightServer.Bytes.Base64
import LightServer.Http.Status
import LightServer.Json.Skip
import LightServer.Net.Url
import LightServer.Node.Config
import LightServer.Node.Query

/-!
# Calls over HTTP

A call is posted to the node as a request with a number of its own, and the node replies
with an envelope that holds a result and an error. An envelope counts whatever the
status of its response is. A body that is no envelope is an error of the exchange, and
the status only tells which. Other members of an envelope are passed over.
-/

namespace LightServer.Node

open LightServer.Json

def requestBody (id : Nat) (method : String) (params : List Json) : Json :=
  Json.ofMembers [("jsonrpc", .string "1.0"), ("id", .nat id), ("method", .string method),
    ("params", .array params)]

def authorization (c : Config) : Option String :=
  match c.user, c.password with
  | some user, some password =>
      some ("Basic " ++ Base64.encode (utf8 (user ++ ":" ++ password)))
  | _, _ => none

def requestLine : String := "POST / HTTP/1.1"

structure Posted where
  line : String
  authorization : Option String
  body : Json

def post (c : Config) (id : Nat) (method : String) (params : List Json) : Posted :=
  ⟨requestLine, authorization c, requestBody id method params⟩

/-- An envelope. A member that is missing and one that is null are the same. -/
structure ReplyEnvelope where
  result : Option Json
  error : Option Json

namespace ReplyEnvelope

structure Members where
  result : Option Json := none
  error : Option Json := none

/-- A member that is null is none. -/
def present : Json → Option Json
  | .null => none
  | v => some v

def ofMembers (m : Members) : ReplyEnvelope := ⟨m.result.bind present, m.error.bind present⟩

def memberDepth : Nat := maxDepth - 1

/-- Reads the value of a member. A member that is known may come once. -/
def readMember (fuel : Nat) (key : String) (m : Members) (s : List Char) :
    Option (Members × List Char) :=
  if key = "result" then
    if m.result.isSome then none
    else (readValue fuel memberDepth s).map fun (v, s) => ({ m with result := some v }, s)
  else if key = "error" then
    if m.error.isSome then none
    else (readValue fuel memberDepth s).map fun (v, s) => ({ m with error := some v }, s)
  else (skipValue fuel s).map fun s => (m, s)

def readMembers : Nat → Members → List Char → Option (Members × List Char)
  | 0, _, _ => none
  | fuel + 1, m, s =>
      match skipBlanks s with
      | '"' :: s =>
          match readString s with
          | none => none
          | some (key, s) =>
              match skipBlanks s with
              | ':' :: s =>
                  match readMember fuel key m s with
                  | none => none
                  | some (m, s) =>
                      match skipBlanks s with
                      | '\x7d' :: s => some (m, s)
                      | ',' :: s => readMembers fuel m s
                      | _ => none
              | _ => none
      | _ => none

/-- The members in their order, from a list of at most two values. -/
def ofItems : List Json → Option Members
  | [] => some {}
  | [r] => some { result := some r }
  | [r, e] => some { result := some r, error := some e }
  | _ => none

/-- Reads an envelope at the front of a text. It is an object, or an array with its
members in their order. -/
def readFrom (fuel : Nat) (s : List Char) : Option (Members × List Char) :=
  match skipBlanks s with
  | '\x7b' :: s =>
      match skipBlanks s with
      | '\x7d' :: s => some ({}, s)
      | s => readMembers fuel {} s
  | '[' :: s =>
      match skipBlanks s with
      | ']' :: s => some ({}, s)
      | s =>
          match readItems fuel memberDepth s with
          | none => none
          | some (vs, s) => (ofItems vs).map fun m => (m, s)
  | _ => none

def ofText? (text : String) : Option ReplyEnvelope :=
  match readFrom (fuelFor text.toList) text.toList with
  | none => none
  | some (m, s) => if (skipBlanks s).isEmpty then some (ofMembers m) else none

end ReplyEnvelope

def errorCode? (v : Json) : Option Int :=
  match v.get? "code" with
  | some (.integer n) => if n ≤ Text.maxInt64 then some n else none
  | _ => none

def errorMessage (v : Json) : String :=
  match v.get? "message" with
  | some (.string s) => s
  | _ => ""

def Failure.ofJson (v : Json) : Failure :=
  match v with
  | .string s => .ofText s
  | v =>
      match errorCode? v with
      | some code => ⟨code, errorMessage v⟩
      | none => .ofText v.compact

def ReplyEnvelope.reply (e : ReplyEnvelope) : Reply :=
  match e.error with
  | some v => .error (.failure (.ofJson v))
  | none => .ok (e.result.getD .null)

def readResponse (method : String) (status : Nat) (body : String) : Reply :=
  match ReplyEnvelope.ofText? body with
  | some e => e.reply
  | none =>
      if Http.IsSuccess status then .error (.decode (method ++ ": <json error>"))
      else .error (.transport ("HTTP " ++ Http.statusText status ++ " from node"))

inductive Exchange where
  | refused
  | broken
  | complete (status : Nat) (body : String)
  deriving DecidableEq, Repr

def addressFault? (url : String) : Option String :=
  match Net.Url.parse? url with
  | none => some "builder error"
  | some u =>
      if u.canBeSent then none else some ("builder error for url (" ++ u.display ++ ")")

def Exchange.reply (url method : String) (x : Exchange) : Reply :=
  match addressFault? url, x with
  | some text, _ => .error (.transport text)
  | none, refused => .error (.transport ("cannot connect to " ++ url))
  | none, broken => .error (.transport "<http error>")
  | none, complete status body =>
      if Http.IsInterim status then .error (.transport "<http error>")
      else readResponse method status (if Http.HasNoBody status then "" else body)

end LightServer.Node
