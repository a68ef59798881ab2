import LightServer.Telemetry.Pattern
import LightServer.Text.Integer

/-!
# Filters of the log

A filter is a list of directives between commas. A directive is a level or a target, or
it has a target, a span in brackets with fields in braces, and a level after an equals
sign. A field may have a value after an equals sign: a truth value, a number or a pattern.
The characters of a directive are looked at one after the other. Blanks around it are not
looked at, but they count where the positions of its parts are.
-/

namespace LightServer.Telemetry

def levelNames : List String := ["off", "error", "warn", "info", "debug", "trace"]

/-- The text is a level: a name in any case, or a number up to five. -/
def isLevel (s : List Char) : Bool :=
  levelNames.contains (String.ofList s).toLower ||
    (match Text.readNat Text.maxWord64 s with
    | .ok n => n ≤ 5
    | .error _ => false)

def dropDigits (s : List Char) : List Char := s.dropWhile Char.isDigit

def isExponent : List Char → Bool
  | [] => true
  | c :: s =>
      let digits := match s with
        | '+' :: s | '-' :: s => s
        | s => s
      c.toLower = 'e' && !digits.isEmpty && digits.all Char.isDigit

def isMagnitude (s : List Char) : Bool :=
  let whole := s.takeWhile Char.isDigit
  match dropDigits s with
  | '.' :: rest =>
      (!whole.isEmpty || (rest.head?.map Char.isDigit).getD false) && isExponent (dropDigits rest)
  | rest => !whole.isEmpty && isExponent rest

/-- The text is a number, or the word for one that is not finite. -/
def isNumber (s : List Char) : Bool :=
  let s := match s with
    | '+' :: s | '-' :: s => s
    | s => s
  ["inf", "infinity", "nan"].contains (String.ofList s).toLower || isMagnitude s

/-- The text is the value of a field. Truth values are patterns, too. -/
def isFieldValue (s : List Char) : Bool := isNumber s || Pattern.isGood s

/-- The text is a field. What follows a second equals sign does not count. -/
def isField (s : List Char) : Bool :=
  !s.isEmpty &&
    match (s.dropWhile (· ≠ '=')) with
    | _ :: value => isFieldValue (value.takeWhile (· ≠ '='))
    | [] => true

def dropBytes : Nat → List Char → List Char
  | 0, s => s
  | _, [] => []
  | n, c :: s => dropBytes (n - c.utf8Size) s

def takeBytes : Nat → List Char → List Char
  | 0, _ => []
  | _, [] => []
  | n, c :: s => c :: takeBytes (n - c.utf8Size) s

/-- What part of a directive is being read. Levels and fields begin at a position. -/
inductive Part where
  | start
  | target
  | span
  | field (start : Nat)
  | fields
  | closed
  | level (start : Nat)
  deriving DecidableEq, Repr

def beginsTarget (c : Char) : Bool :=
  Text.isAlphanumeric c || c = '-' || c = ':' || c = '_'

/-- The part that is being read after the character at a position, where a field is the
text between two positions. -/
def Part.next (between : Nat → Nat → List Char) (i : Nat) (c : Char) : Part → Option Part
  | start =>
      if c = '[' then some .span else if beginsTarget c then some .target else none
  | target =>
      if c = '=' then some (.level (i + 1)) else if c = '[' then some .span else some .target
  | span =>
      if c = ']' then some .closed
      else if c = '\x7b' then some (.field (i + 1)) else some .span
  | field begin =>
      if c = '\x7d' then if isField (between begin i) then some .fields else none
      else some (.field begin)
  | fields => if c = ']' then some .closed else none
  | closed => if c = '=' then some (.level (i + 1)) else none
  | level begin => some (.level begin)

/-- The part that is being read at the end of a text whose first character has the given
position. -/
def Part.readAll (between : Nat → Nat → List Char) : Nat → List Char → Part → Option Part
  | _, [], p => some p
  | i, c :: s, p => (p.next between i c).bind (readAll between (i + c.utf8Size) s)

def isDirective (s : List Char) : Bool :=
  let between := fun i j => takeBytes (j - i) (dropBytes i s)
  match Part.start.readAll between 0 (Text.trimBlanks s) with
  | some (.level begin) => (dropBytes begin s).isEmpty || isLevel (dropBytes begin s)
  | some .target | some .closed => true
  | _ => false

def isFilter (s : String) : Bool :=
  (s.splitOn ",").all fun d => d.isEmpty || isDirective d.toList

end LightServer.Telemetry
