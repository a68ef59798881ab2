import LightServer.Node.Error
import LightServer.Time.Duration

/-!
# Settings for the node

The settings name the address of the node and the user and password for it. They
are also read from the settings file of the node, which has a `key=value` pair on a
line and comments after `#`. Of lines with the same key the last one counts, and
lines without a known key are passed over.
-/

namespace LightServer.Node

structure Config where
  url : String
  user : Option String
  password : Option String
  requestTimeout : Duration
  connectTimeout : Duration
  deriving DecidableEq, Repr

namespace Config

def mainPort : Nat := 8232

def testPort : Nat := 18232

def endpoint (host : String) (port : Nat) : String :=
  "http://" ++ host ++ ":" ++ Text.decimal port

def default : Config where
  url := endpoint "127.0.0.1" mainPort
  user := none
  password := none
  requestTimeout := .ofSeconds 30
  connectTimeout := .ofSeconds 5

def forTesting (url : String) : Config where
  url := url
  user := some "test"
  password := some "test"
  requestTimeout := .ofSeconds 2
  connectTimeout := .ofSeconds 1

/-- The lines of a text. What follows the last line feed is a line if it is not
empty. -/
def linesOf : List Char → List (List Char)
  | [] => []
  | c :: s =>
      if c = '\n' then [] :: linesOf s
      else
        match linesOf s with
        | [] => [[c]]
        | l :: ls => (c :: l) :: ls

def assignment? (line : List Char) : Option (String × String) :=
  let text := Text.trimBlanks (line.takeWhile (· ≠ '#'))
  (splitOnce '=' text).map fun (k, v) =>
    (String.ofList (Text.trimBlanks k), String.ofList (Text.trimBlanks v))

def assignments (text : String) : List (String × String) :=
  (linesOf text.toList).filterMap assignment?

def lastValue? (key : String) (xs : List (String × String)) : Option String :=
  (xs.reverse.find? fun x => x.1 == key).map Prod.snd

def port? (s : String) : Option Nat := (Text.readNat Text.maxWord16 s.toList).toOption

/-- The port that a file sets, and otherwise the one of its network. -/
def portOf (xs : List (String × String)) : Nat :=
  let network := if lastValue? "testnet" xs = some "1" then testPort else mainPort
  ((lastValue? "rpcport" xs).bind port?).getD network

def ofText (text : String) : Config :=
  let xs := assignments text
  { default with
    url := endpoint ((lastValue? "rpcbind" xs).getD "127.0.0.1") (portOf xs)
    user := lastValue? "rpcuser" xs
    password := lastValue? "rpcpassword" xs }

def isWebAddress (url : String) : Bool :=
  "http://".toList.isPrefixOf url.toList || "https://".toList.isPrefixOf url.toList

def validate (c : Config) : Except Error Unit :=
  if !isWebAddress c.url then .error (.config ("rpc url must be http(s): " ++ c.url))
  else if c.user.isSome ≠ c.password.isSome then
    .error (.config "rpc user and password must be set together")
  else .ok ()

def toJson (c : Config) : Json :=
  Json.ofMembers [("url", .string c.url), ("user", .orNull .string c.user),
    ("password", .orNull .string c.password), ("request_timeout", c.requestTimeout.toJson),
    ("connect_timeout", c.connectTimeout.toJson)]

end Config

end LightServer.Node
