import LightServer.Telemetry.Pattern.Class
import LightServer.Text.Alphanumeric

/-!
# Patterns

A pattern is a sequence of characters, classes, edges and groups, which may be repeated,
with alternatives between bars. A group may have a name of its own or flags, and flags
also stand alone and then hold up to the end of the group around them. A pattern is good
if it can be read, if it can be matched in the modes that hold in it, and if it does not
nest too deep. Repetitions with a number in braces cannot occur where patterns are used.
-/

namespace LightServer.Telemetry.Pattern

/-- A part of a sequence: flags, or something of some depth that can be repeated. -/
inductive Part where
  | flags
  | expression (depth : Nat)
  deriving DecidableEq, Repr

def Part.depth : Part → Nat
  | flags => 0
  | expression d => d

/-- A group that has been begun: the mode around it, and the alternatives and the parts
before it. -/
structure Group where
  mode : Mode
  alternatives : List Nat
  parts : List Part
  deriving DecidableEq, Repr

/-- What has been read of a pattern: the mode that holds, the depths of the alternatives
of the innermost group, the parts of its last one from the right, the groups around, and
the names of groups. -/
structure Progress where
  mode : Mode
  alternatives : List Nat
  parts : List Part
  groups : List Group
  names : List (List Char)
  deriving DecidableEq, Repr

namespace Progress

def initial : Progress := ⟨.initial, [], [], [], []⟩

def lastDepth (p : Progress) : Nat := depthOf (p.parts.map Part.depth)

def depth (p : Progress) : Nat := depthOf (p.lastDepth :: p.alternatives)

def push (part : Part) (p : Progress) : Progress := { p with parts := part :: p.parts }

def next (p : Progress) : Progress :=
  { p with alternatives := p.lastDepth :: p.alternatives, parts := [] }

def again? (p : Progress) : Option Progress :=
  match p.parts with
  | .expression d :: parts => some { p with parts := .expression (d + 1) :: parts }
  | _ => none

def enter (m : Mode) (p : Progress) : Progress :=
  { p with
    mode := m
    alternatives := []
    parts := []
    groups := ⟨p.mode, p.alternatives, p.parts⟩ :: p.groups }

def leave? (p : Progress) : Option Progress :=
  match p.groups with
  | [] => none
  | g :: groups => some { p with
      mode := g.mode
      alternatives := g.alternatives
      parts := .expression (p.depth + 1) :: g.parts
      groups := groups }

end Progress

/-- Reads the letters of flags up to a colon or a parenthesis. A minus sign, of which there
may be one before letters, turns those after it off. -/
def readFlags (m : Mode) (seen : List Char) : List Char → Option (Mode × List Char × List Char)
  | [] => none
  | c :: s =>
      if c = ':' || c = ')' then if seen.head? = some '-' then none else some (m, seen, c :: s)
      else if seen.contains c then none
      else if c = '-' then readFlags m (c :: seen) s
      else if flagLetters.contains c then readFlags (m.set c (!seen.contains '-')) (c :: seen) s
      else none

def beginsName (c : Char) : Bool := c = '_' || (Text.isAlphanumeric c && !c.isDigit)

def inName (c : Char) : Bool := ['_', '.', '[', ']'].contains c || Text.isAlphanumeric c

def readName (s : List Char) : Option (List Char × List Char) :=
  let name := s.takeWhile (· ≠ '>')
  match name, s.dropWhile (· ≠ '>') with
  | c :: r, '>' :: rest => if beginsName c && r.all inName then some (name, rest) else none
  | _, _ => none

/-- Begins a group with a name, which is the only one with it. -/
def enterNamed (p : Progress) (s : List Char) : Option (Progress × List Char) := do
  let (name, rest) ← readName s
  if p.names.contains name then none
  else return ({ p with names := name :: p.names }.enter p.mode, rest)

def enterFlags (p : Progress) (s : List Char) : Option (Progress × List Char) := do
  let (m, seen, rest) ← readFlags p.mode [] s
  match rest with
  | ':' :: rest => return (p.enter m, rest)
  | _ :: rest => if seen.isEmpty then none else return ({ p with mode := m }.push .flags, rest)
  | [] => none

def readGroup (p : Progress) (s : List Char) : Option (Progress × List Char) :=
  match p.mode.skip s with
  | '?' :: 'P' :: '<' :: s => enterNamed p s
  | '?' :: '<' :: s => enterNamed p s
  | '?' :: s => enterFlags p s
  | s => some (p.enter p.mode, s)

def readWholeClass (m : Mode) (s : List Char) : Option (Nat × List Char) := do
  let (c, s) ← readOpening m s
  readClass m (s.length + 1) c [] s

def repeats : List Char := ['*', '+', '?']

def Progress.pushIf (allowed : Bool) (p : Progress) (s : List Char) :
    Option (Progress × List Char) :=
  if allowed then some (p.push (.expression 0), s) else none

def readPart (p : Progress) (c : Char) (s : List Char) : Option (Progress × List Char) :=
  if c = '(' then readGroup p s
  else if c = ')' then p.leave?.map fun p => (p, s)
  else if c = '|' then some (p.next, s)
  else if c = '[' then
    (readWholeClass p.mode s).map fun (d, s) => (p.push (.expression d), s)
  else if repeats.contains c then
    p.again?.map fun p => (p, if s.head? = some '?' then s.drop 1 else s)
  else if c = '\x7b' then none
  else if c = '\\' then
    (readEscape p.mode s).bind fun (e, s) => p.pushIf (p.mode.allows e) s
  else if c = '.' then p.pushIf p.mode.unicode s
  else if c = '^' || c = '$' then p.pushIf true s
  else p.pushIf (p.mode.allowsCharacter c false) s

def readParts : Nat → Progress → List Char → Option Nat
  | 0, _, _ => none
  | fuel + 1, p, s =>
      match p.mode.skip s with
      | [] => if p.groups.isEmpty then some p.depth else none
      | c :: s => (readPart p c s).bind fun (p, s) => readParts fuel p s

def maxDepth : Nat := 250

def isGood (s : List Char) : Bool :=
  match readParts (s.length + 1) .initial s with
  | some d => d ≤ maxDepth
  | none => false

end LightServer.Telemetry.Pattern
