import LightServer.Text.Digits
import LightServer.Text.Integer

/-!
# Internet addresses

An address has four bytes or eight groups of sixteen bits. Four bytes are written in
decimal without leading zeros. Groups are written in hexadecimal, the longest run of
two or more zero groups is written as `::`, and the last two groups may be written as
four bytes. A socket address adds a port.
-/

namespace LightServer.Net

inductive IpAddress where
  | v4 (bytes : List Nat)
  | v6 (groups : List Nat)
  deriving DecidableEq, Repr

def readNumber (radix limit : Nat) (width : Option Nat) (leadingZeros : Bool) (s : List Char) :
    Option (Nat × List Char) :=
  let (ds, rest) := Text.spanDigitsIn radix s
  let n := Text.ofDigitsIn radix ds
  let short := match width with
    | none => true
    | some w => ds.length ≤ w
  let plain := leadingZeros || ds.length ≤ 1 || ds.head? != some 0
  if !ds.isEmpty && short && plain && n ≤ limit then some (n, rest) else none

def expect (c : Char) : List Char → Option (List Char)
  | d :: s => if d = c then some s else none
  | [] => none

def readV4 (s : List Char) : Option (List Nat × List Char) := do
  let byte := readNumber 10 255 (some 3) false
  let (a, s) ← byte s
  let (b, s) ← byte (← expect '.' s)
  let (c, s) ← byte (← expect '.' s)
  let (d, s) ← byte (← expect '.' s)
  return ([a, b, c, d], s)

def groupsOfV4 : List Nat → List Nat
  | [a, b, c, d] => [256 * a + b, 256 * c + d]
  | _ => []

def readSeparator (first : Bool) (s : List Char) : Option (List Char) :=
  if first then some s else expect ':' s

/-- Reads up to `limit` groups, and says whether they end with four bytes. -/
def readGroups : Nat → Bool → List Char → (List Nat × Bool) × List Char
  | 0, _, s => (([], false), s)
  | limit + 1, first, s =>
      let bytes := if 0 < limit then (readSeparator first s).bind readV4 else none
      match bytes with
      | some (b, rest) => ((groupsOfV4 b, true), rest)
      | none =>
          match (readSeparator first s).bind (readNumber 16 0xFFFF (some 4) true) with
          | none => (([], false), s)
          | some (g, rest) =>
              let ((gs, v4), rest) := readGroups limit false rest
              ((g :: gs, v4), rest)

def readV6 (s : List Char) : Option (List Nat × List Char) :=
  let ((head, v4), rest) := readGroups 8 true s
  if head.length = 8 then some (head, rest)
  else if v4 then none
  else do
    let rest ← expect ':' (← expect ':' rest)
    let ((tail, _), rest) := readGroups (7 - head.length) true rest
    return (head ++ List.replicate (8 - head.length - tail.length) 0 ++ tail, rest)

def IpAddress.parse (s : String) : Option IpAddress :=
  match readV4 s.toList with
  | some (b, []) => some (.v4 b)
  | _ =>
      match readV6 s.toList with
      | some (g, []) => some (.v6 g)
      | _ => none

def displayV4 (b : List Nat) : String := ".".intercalate (b.map Text.decimal)

def displayGroups (gs : List Nat) : String :=
  ":".intercalate (gs.map fun g => String.ofList (Nat.toDigits 16 g))

def leadingZeros : List Nat → Nat
  | 0 :: gs => leadingZeros gs + 1
  | _ => 0

/-- The start and the length of the longest run of zeros, of the first one if two are
equally long. -/
def longestZeros : Nat → List Nat → Nat × Nat
  | _, [] => (0, 0)
  | i, g :: gs =>
      let here := leadingZeros (g :: gs)
      let later := longestZeros (i + 1) gs
      if later.2 ≤ here then (i, here) else later

def displayV6 : List Nat → String
  | [0, 0, 0, 0, 0, 0xFFFF, x, y] =>
      "::ffff:" ++ displayV4 [x / 256, x % 256, y / 256, y % 256]
  | gs =>
      let (start, n) := longestZeros 0 gs
      if 1 < n then displayGroups (gs.take start) ++ "::" ++ displayGroups (gs.drop (start + n))
      else displayGroups gs

def IpAddress.display : IpAddress → String
  | v4 b => displayV4 b
  | v6 g => displayV6 g

/-- An address with a port, and with the zone in which an address of groups is valid. -/
structure SocketAddress where
  ip : IpAddress
  zone : Nat
  port : Nat
  deriving DecidableEq, Repr

namespace SocketAddress

def ofParts (ip : IpAddress) (port : Nat) : SocketAddress := ⟨ip, 0, port⟩

def readPort (s : List Char) : Option (Nat × List Char) := do
  readNumber 10 Text.maxWord16 none true (← expect ':' s)

def readZone : List Char → Option (Nat × List Char)
  | '%' :: s => readNumber 10 0xFFFFFFFF none true s
  | s => some (0, s)

def readV4Socket (s : List Char) : Option (SocketAddress × List Char) := do
  let (b, s) ← readV4 s
  let (port, s) ← readPort s
  return (⟨.v4 b, 0, port⟩, s)

def readV6Socket (s : List Char) : Option (SocketAddress × List Char) := do
  let (g, s) ← readV6 (← expect '[' s)
  let (zone, s) ← readZone s
  let (port, s) ← readPort (← expect ']' s)
  return (⟨.v6 g, zone, port⟩, s)

def parse (s : String) : Option SocketAddress :=
  match readV4Socket s.toList with
  | some (a, []) => some a
  | _ =>
      match readV6Socket s.toList with
      | some (a, []) => some a
      | _ => none

def display (a : SocketAddress) : String :=
  match a.ip with
  | .v4 b => displayV4 b ++ ":" ++ Text.decimal a.port
  | .v6 g =>
      let zone := if a.zone = 0 then "" else "%" ++ Text.decimal a.zone
      "[" ++ displayV6 g ++ zone ++ "]:" ++ Text.decimal a.port

end SocketAddress

end LightServer.Net
