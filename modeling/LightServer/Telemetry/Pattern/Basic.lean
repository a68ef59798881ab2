import LightServer.Text.Blank
import LightServer.Text.Digits

/-!
# Parts of patterns

A pattern is read in a mode, which flags change. In verbose mode blanks, and comments up
to the end of a line, do not count. A backslash stands before a character that is meant
as itself, before the number of one, or before the letter of a class or of an edge. There
is no table of the properties of characters: where they would be needed, because letters
count in either case, or for classes of digits, blanks and words, a pattern is refused
unless it is confined to the ASCII set. No pattern may match a part of a character.
-/

namespace LightServer.Telemetry.Pattern

structure Mode where
  ignoreCase : Bool
  unicode : Bool
  verbose : Bool
  deriving DecidableEq, Repr

def Mode.initial : Mode := ⟨false, true, false⟩

def Mode.set (letter : Char) (on : Bool) (m : Mode) : Mode :=
  if letter = 'i' then { m with ignoreCase := on }
  else if letter = 'u' then { m with unicode := on }
  else if letter = 'x' then { m with verbose := on }
  else m

def flagLetters : List Char := ['i', 's', 'm', 'U', 'u', 'R', 'x']

/-- Drops blanks and comments. One may stand in a comment at the beginning. -/
def dropBlanks : Bool → List Char → List Char
  | _, [] => []
  | true, c :: s => dropBlanks (c != '\n') s
  | false, c :: s =>
      if c = '#' then dropBlanks true s
      else if Text.isBlank c then dropBlanks false s
      else c :: s

def Mode.skip (m : Mode) (s : List Char) : List Char := if m.verbose then dropBlanks false s else s

/-- What a backslash and the characters after it stand for. The number of a byte has two
digits. -/
inductive Escape where
  | character (c : Char) (byte : Bool)
  | namedClass (negated : Bool)
  | wordEdge
  | textEdge
  deriving DecidableEq, Repr

def readCode (m : Mode) : Nat → Nat → List Char → Option (Nat × List Char)
  | 0, v, s => some (v, s)
  | _ + 1, _, [] => none
  | n + 1, v, c :: s => do readCode m n (16 * v + (← Text.digitIn? 16 c)) (m.skip s)

def codeLength? (letter : Char) : Option Nat :=
  [('x', 2), ('u', 4), ('U', 8)].lookup letter

def controls : List (Char × Nat) :=
  [('a', 0x07), ('f', 0x0C), ('t', 0x09), ('n', 0x0A), ('r', 0x0D), ('v', 0x0B)]

def escapeOf? (c : Char) : Option Escape :=
  if ['d', 's', 'w'].contains c then some (.namedClass false)
  else if ['D', 'S', 'W'].contains c then some (.namedClass true)
  else if ['b', 'B', '<', '>'].contains c then some .wordEdge
  else if ['A', 'z'].contains c then some .textEdge
  else
    match controls.lookup c with
    | some n => some (.character (Char.ofNat n) false)
    | none =>
        if c.toNat < 0x80 && !c.isAlphanum then some (.character c false) else none

def readEscape (m : Mode) : List Char → Option (Escape × List Char)
  | [] => none
  | c :: s =>
      match codeLength? c with
      | some n => do
          let (v, s) ← readCode m n 0 (m.skip s)
          if v.isValidChar then return (.character (Char.ofNat v) (c = 'x'), s) else none
      | none => (escapeOf? c).map fun e => (e, s)

/-- The number of a byte that is no character of its own. -/
def isPartialByte (c : Char) (byte : Bool) : Bool := byte && 0x80 ≤ c.toNat

def Mode.allowsCharacter (m : Mode) (c : Char) (byte : Bool) : Bool :=
  if m.unicode then !m.ignoreCase else !isPartialByte c byte

def Mode.allows (m : Mode) : Escape → Bool
  | .character c byte => m.allowsCharacter c byte
  | .namedClass negated => !m.unicode && !negated
  | .wordEdge => !m.unicode
  | .textEdge => true

end LightServer.Telemetry.Pattern
