import LightServer.Json.Basic

/-!
# Strings in JSON text

A string stands between double quotes. Inside it a quote, a backslash and the
control characters are escaped, and all other characters stand for themselves. An
escape by number holds a unit of sixteen bits, and two such units form a
character above the first `2 ^ 16`. Reading cuts the text at the closing quote
first and resolves the escapes afterwards.
-/

namespace LightServer.Json

def hexValue? (c : Char) : Option Nat :=
  if c.isDigit then some (c.toNat - 48)
  else if 'a' ≤ c ∧ c ≤ 'f' then some (c.toNat - 87)
  else if 'A' ≤ c ∧ c ≤ 'F' then some (c.toNat - 55)
  else none

def unit? (a b c d : Char) : Option Nat := do
  return 4096 * (← hexValue? a) + 256 * (← hexValue? b) + 16 * (← hexValue? c) + (← hexValue? d)

/-- The text up to the closing quote, and the text after it. A character after a
backslash closes nothing. -/
def cutString : List Char → Option (List Char × List Char)
  | [] => none
  | '"' :: s => some ([], s)
  | '\\' :: c :: s => (cutString s).map fun (t, r) => ('\\' :: c :: t, r)
  | c :: s =>
      if c.toNat < 0x20 then none else (cutString s).map fun (t, r) => (c :: t, r)

def shortEscape? (c : Char) : Option Char :=
  if c = '"' ∨ c = '\\' ∨ c = '/' then some c
  else if c = 'b' then some (Char.ofNat 8)
  else if c = 'f' then some (Char.ofNat 12)
  else if c = 'n' then some '\n'
  else if c = 'r' then some '\r'
  else if c = 't' then some '\t'
  else none

def isHighHalf (u : Nat) : Bool := 0xD800 ≤ u && u < 0xDC00

def isLowHalf (u : Nat) : Bool := 0xDC00 ≤ u && u < 0xE000

def unescape : List Char → Option (List Char)
  | [] => some []
  | '\\' :: 'u' :: a :: b :: c :: d :: s =>
      match unit? a b c d with
      | none => none
      | some u =>
          if isLowHalf u then none
          else if isHighHalf u then
            match s with
            | '\\' :: 'u' :: a' :: b' :: c' :: d' :: s =>
                match unit? a' b' c' d' with
                | none => none
                | some v =>
                    if isLowHalf v then
                      (unescape s).map
                        (Char.ofNat (0x10000 + 0x400 * (u - 0xD800) + (v - 0xDC00)) :: ·)
                    else none
            | _ => none
          else (unescape s).map (Char.ofNat u :: ·)
  | '\\' :: c :: s =>
      match shortEscape? c with
      | none => none
      | some c => (unescape s).map (c :: ·)
  | '\\' :: [] => none
  | c :: s => (unescape s).map (c :: ·)

/-- Every escape of a text is well formed, whatever its units denote. -/
def escapesWell : List Char → Bool
  | [] => true
  | '\\' :: 'u' :: a :: b :: c :: d :: s => (unit? a b c d).isSome && escapesWell s
  | '\\' :: c :: s => (shortEscape? c).isSome && escapesWell s
  | '\\' :: [] => false
  | _ :: s => escapesWell s

/-- The string whose opening quote has been read, and the rest. -/
def readString (s : List Char) : Option (String × List Char) := do
  let (t, r) ← cutString s
  return (String.ofList (← unescape t), r)

def skipString (s : List Char) : Option (List Char) := do
  let (t, r) ← cutString s
  if escapesWell t then some r else none

def escape (c : Char) : List Char :=
  if c = '"' then ['\\', '"']
  else if c = '\\' then ['\\', '\\']
  else if c = '\n' then ['\\', 'n']
  else if c = '\r' then ['\\', 'r']
  else if c = '\t' then ['\\', 't']
  else if c.toNat = 8 then ['\\', 'b']
  else if c.toNat = 12 then ['\\', 'f']
  else if c.toNat < 0x20 then
    ['\\', 'u', '0', '0', Nat.digitChar (c.toNat / 16), Nat.digitChar (c.toNat % 16)]
  else [c]

def writeString (s : String) : List Char := '"' :: s.toList.flatMap escape ++ ['"']

end LightServer.Json
