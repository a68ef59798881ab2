import LightServer.Telemetry.Pattern.Basic

/-!
# Classes of characters

A class stands in brackets. It holds characters, ranges, named classes and other classes,
and two sets can be combined by an operator. A closing bracket right at the beginning is
meant as itself, and so are hyphens there. A class counts how deep it nests.
-/

namespace LightServer.Telemetry.Pattern

/-- How deep some parts of equal rank nest: several of them are one level more. -/
def depthOf : List Nat → Nat
  | [] => 0
  | [d] => d
  | ds => 1 + ds.foldl max 0

/-- A class that is being read: whether it is negated, how deep the set on the left of the
last operator nests, and the depths of what has been read since. -/
structure OpenClass where
  negated : Bool
  left : Option Nat
  items : List Nat
  deriving DecidableEq, Repr

namespace OpenClass

def add (depth : Nat) (c : OpenClass) : OpenClass := { c with items := depth :: c.items }

def setDepth (c : OpenClass) : Nat :=
  match c.left with
  | none => depthOf c.items
  | some d => 1 + max d (depthOf c.items)

def operator (c : OpenClass) : OpenClass := { c with left := some c.setDepth, items := [] }

end OpenClass

def classNames : List String :=
  ["alnum", "alpha", "ascii", "blank", "cntrl", "digit", "graph", "lower", "print", "punct",
    "space", "upper", "word", "xdigit"]

/-- Reads a class between colons up to its second bracket, and tells whether it is
negated. -/
def readNamedClass? : List Char → Option (Bool × List Char)
  | ':' :: s =>
      let negated := s.head? = some '^'
      let s := if negated then s.drop 1 else s
      match s.dropWhile (· ≠ ':') with
      | ':' :: ']' :: rest =>
          if classNames.contains (String.ofList (s.takeWhile (· ≠ ':'))) then some (negated, rest)
          else none
      | _ => none
  | _ => none

def Mode.allowsMember (m : Mode) (c : Char) : Bool :=
  if m.unicode then !m.ignoreCase else c.toNat < 0x80

def Mode.allowsNegation (m : Mode) (negated : Bool) : Bool := m.unicode || !negated

def readHyphens (m : Mode) : Nat → List Char → Nat × List Char
  | fuel + 1, '-' :: s =>
      let (n, rest) := readHyphens m fuel (m.skip s)
      (n + 1, rest)
  | _, s => (0, s)

def readOpening (m : Mode) (s : List Char) : Option (OpenClass × List Char) :=
  let s := m.skip s
  let negated := s.head? = some '^'
  let s := if negated then m.skip (s.drop 1) else s
  let (hyphens, s) := readHyphens m s.length s
  let plain := hyphens = 0 && s.head? = some ']'
  let s := if plain then m.skip (s.drop 1) else s
  let items := List.replicate (hyphens + if plain then 1 else 0) 0
  if s.isEmpty || !(items.isEmpty || m.allowsMember '-') then none
  else some (⟨negated, none, items⟩, s)

def readMember (m : Mode) : List Char → Option (Escape × List Char)
  | [] => none
  | '\\' :: s => readEscape m s
  | c :: s => some (.character c false, s)

def Mode.allowsItem (m : Mode) : Escape → Bool
  | .character c _ => m.allowsMember c
  | .namedClass negated => !m.unicode && !negated
  | .wordEdge | .textEdge => false

def Mode.allowsRange (m : Mode) : Escape → Escape → Bool
  | .character a _, .character b _ => a.toNat ≤ b.toNat && m.allowsMember a && m.allowsMember b
  | _, _ => false

def readRange (m : Mode) (s : List Char) : Option (List Char) := do
  let (a, s) ← readMember m s
  let s := m.skip s
  let alone := if m.allowsItem a then some s else none
  match s with
  | '-' :: rest =>
      let rest := m.skip rest
      if rest.head? = some ']' || rest.head? = some '-' then alone
      else do
        let (b, rest) ← readMember m rest
        if m.allowsRange a b then return rest else none
  | _ => alone

/-- What an opening bracket in a class begins: a class between colons, or one that has to
be read. -/
def readInner (m : Mode) (s : List Char) : Option (Option OpenClass × List Char) :=
  match readNamedClass? s with
  | some (negated, rest) =>
      if m.allowsMember 'a' && m.allowsNegation negated then some (none, rest) else none
  | none => (readOpening m s).map fun (c, rest) => (some c, rest)

/-- Reads a class to its end, with the classes around it. It gives how deep the outermost
class nests and what follows it. -/
def readClass (m : Mode) : Nat → OpenClass → List OpenClass → List Char → Option (Nat × List Char)
  | 0, _, _, _ => none
  | fuel + 1, c, outer, s =>
      match m.skip s with
      | [] => none
      | '[' :: s =>
          match readInner m s with
          | none => none
          | some (none, s) => readClass m fuel (c.add 0) outer s
          | some (some inner, s) => readClass m fuel inner (c :: outer) s
      | ']' :: s =>
          if !m.allowsNegation c.negated then none
          else
            match outer with
            | [] => some (1 + c.setDepth, s)
            | o :: outer => readClass m fuel (o.add (1 + c.setDepth)) outer s
      | '&' :: '&' :: s => readClass m fuel c.operator outer s
      | '-' :: '-' :: s => readClass m fuel c.operator outer s
      | '~' :: '~' :: s => readClass m fuel c.operator outer s
      | s => (readRange m s).bind fun s => readClass m fuel (c.add 0) outer s

end LightServer.Telemetry.Pattern
