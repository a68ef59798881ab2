import LightServer.Bytes.Utf8
import LightServer.Http.Target
import LightServer.Net.Address
import LightServer.Net.Domain

/-!
# Addresses on the web

An address on the web has a scheme, an authority and a path. The authority is the host
with a port after a colon, and what stands before its last at sign is the user. The host
is an address of groups in brackets or a name. A name whose last label is a number is an
address of four bytes: it has up to four numbers, decimal, octal or hexadecimal ones, and
the last number fills the bytes that are left.
-/

namespace LightServer.Net

inductive UrlHost where
  | address (ip : IpAddress)
  | name (labels : List Char)
  deriving DecidableEq, Repr

/-- An address on the web. What follows the authority is kept as it is written. -/
structure Url where
  scheme : String
  host : UrlHost
  port : Option Nat
  rest : List Char
  deriving DecidableEq, Repr

namespace Url

def dropScheme? (scheme s : List Char) : Option (List Char) :=
  if (s.take scheme.length).map Char.toLower = scheme then some (s.drop scheme.length) else none

def schemes : List (String × Nat) := [("http", 80), ("https", 443)]

/-- Blanks at both ends, tabs and line breaks take no part in an address. -/
def clean (s : List Char) : List Char :=
  let trim := fun t : List Char => t.dropWhile (·.toNat ≤ 0x20)
  (trim (trim s).reverse).reverse.filter fun c => c ≠ '\t' && c ≠ '\n' && c ≠ '\r'

def isSlash (c : Char) : Bool := c = '/' || c = '\\'

def endsAuthority (c : Char) : Bool := isSlash c || c = '?' || c = '#'

def spanHost : Bool → List Char → List Char × List Char
  | _, [] => ([], [])
  | bracketed, c :: s =>
      if c = ':' && !bracketed then ([], c :: s)
      else
        let (host, rest) := spanHost (c = '[' || (bracketed && c ≠ ']')) s
        (c :: host, rest)

def radixOf : List Char → Nat × List Char
  | '0' :: 'x' :: s => (16, s)
  | '0' :: c :: s => (8, c :: s)
  | s => (10, s)

def number? (s : List Char) : Option Nat :=
  let (radix, digits) := radixOf s
  let (ds, rest) := Text.spanDigitsIn radix digits
  if s.isEmpty || !rest.isEmpty then none else some (Text.ofDigitsIn radix ds)

/-- The labels of a name without the empty one that a full stop at the end leaves. -/
def labels (name : List Char) : List (List Char) :=
  let ls := ((String.ofList name).splitOn ".").map String.toList
  if ls.getLast? = some [] then ls.dropLast else ls

def endsInNumber (name : List Char) : Bool :=
  match (labels name).getLast? with
  | some l => (!l.isEmpty && l.all Char.isDigit) || (number? l).isSome
  | none => false

def bytesOf (n : Nat) : List Nat :=
  [n / 0x1000000 % 0x100, n / 0x10000 % 0x100, n / 0x100 % 0x100, n % 0x100]

def v4? (name : List Char) : Option IpAddress := do
  let numbers ← (labels name).mapM number?
  let last ← numbers.getLast?
  let first := numbers.dropLast
  let weight := Nat.pow 0x100 (4 - first.length)
  if first.length < 4 && last < weight && first.all (· ≤ 0xFF) then
    return .v4 (first ++ (bytesOf last).drop first.length)
  else none

def host? (s : List Char) : Option UrlHost :=
  match s with
  | '[' :: s =>
      match readV6 s with
      | some (g, [']']) => some (.address (.v6 g))
      | _ => none
  | s => do
      let text ← (Utf8.decode (Http.percentDecode (utf8 (String.ofList s)))).toOption
      let name ← Domain.ofText? text.toList
      if endsInNumber name then return .address (← v4? name) else return .name name

/-- The port in what follows a host. It may be empty. -/
def port? : List Char → Option (Option Nat)
  | [] => some none
  | ':' :: s =>
      if s.isEmpty then some none
      else
        match readNumber 10 Text.maxWord16 none true s with
        | some (n, []) => some (some n)
        | _ => none
  | _ => none

def withoutUser (s : List Char) : List Char := (s.reverse.takeWhile (· ≠ '@')).reverse

def afterScheme? (scheme : String × Nat) (s : List Char) : Option Url := do
  let s := s.dropWhile isSlash
  let authority := withoutUser (s.takeWhile (!endsAuthority ·))
  let (host, port) := spanHost false authority
  let port ← port? port
  return ⟨scheme.1, ← host? host, port.filter (· ≠ scheme.2), s.dropWhile (!endsAuthority ·)⟩

def parse? (text : String) : Option Url :=
  let s := clean text.toList
  schemes.findSome? fun scheme =>
    (dropScheme? (scheme.1.toList ++ [':']) s).bind (afterScheme? scheme)

def displayHost : UrlHost → String
  | .address (.v6 g) => "[" ++ displayV6 g ++ "]"
  | .address ip => ip.display
  | .name labels => String.ofList labels

/-- The address as text. There is at least one slash after the authority. -/
def display (u : Url) : String :=
  let port := match u.port with
    | some n => ":" ++ Text.decimal n
    | none => ""
  let rest := String.ofList u.rest
  u.scheme ++ "://" ++ displayHost u.host ++ port ++
    (if (u.rest.head?.map isSlash).getD false then rest else "/" ++ rest)

/-- The characters that a name may have and the first line of a request may not. -/
def unsent : List Char := ['"', '\x60', '\x7b', '\x7d']

def canBeSent (u : Url) : Bool :=
  match u.host with
  | .address _ => true
  | .name labels => !labels.any unsent.contains

end Url

end LightServer.Net
