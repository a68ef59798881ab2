import LightServer.Json.Text
import LightServer.Json.Number

/-!
# Reading JSON

A text is one value with blanks around it. Arrays and objects nest up to a fixed
depth. Of members with the same key the last one counts. The functions that read
a value from the front of a text are bounded by a number that is taken from the
length of the text, and every step of theirs uses up at least one character for
two such counts.
-/

namespace LightServer.Json

def skipBlanks : List Char → List Char
  | [] => []
  | c :: s =>
      if c = ' ' ∨ c = '\n' ∨ c = '\t' ∨ c = '\r' then skipBlanks s else c :: s

def maxDepth : Nat := 127

mutual

/-- Reads a value, inside of which `depth` more levels may open. -/
def readValue : Nat → Nat → List Char → Option (Json × List Char)
  | 0, _, _ => none
  | fuel + 1, depth, s =>
      match skipBlanks s with
      | [] => none
      | '"' :: s => (readString s).map fun (t, r) => (.string t, r)
      | 'n' :: 'u' :: 'l' :: 'l' :: s => some (.null, s)
      | 't' :: 'r' :: 'u' :: 'e' :: s => some (.bool true, s)
      | 'f' :: 'a' :: 'l' :: 's' :: 'e' :: s => some (.bool false, s)
      | '[' :: s =>
          if depth = 0 then none
          else
            match skipBlanks s with
            | ']' :: s => some (.array [], s)
            | s => (readItems fuel (depth - 1) s).map fun (xs, r) => (.array xs, r)
      | '\x7b' :: s =>
          if depth = 0 then none
          else
            match skipBlanks s with
            | '\x7d' :: s => some (.object [], s)
            | s => (readMembers fuel (depth - 1) s).map fun (ms, r) => (ofMembers ms, r)
      | s => readNumber s

def readItems : Nat → Nat → List Char → Option (List Json × List Char)
  | 0, _, _ => none
  | fuel + 1, depth, s =>
      match readValue fuel depth s with
      | none => none
      | some (x, s) =>
          match skipBlanks s with
          | ']' :: s => some ([x], s)
          | ',' :: s => (readItems fuel depth s).map fun (xs, r) => (x :: xs, r)
          | _ => none

def readMembers : Nat → Nat → List Char → Option (List (String × Json) × List Char)
  | 0, _, _ => none
  | fuel + 1, depth, s =>
      match skipBlanks s with
      | '"' :: s =>
          match readString s with
          | none => none
          | some (k, s) =>
              match skipBlanks s with
              | ':' :: s =>
                  match readValue fuel depth s with
                  | none => none
                  | some (v, s) =>
                      match skipBlanks s with
                      | '\x7d' :: s => some ([(k, v)], s)
                      | ',' :: s =>
                          (readMembers fuel depth s).map fun (ms, r) => ((k, v) :: ms, r)
                      | _ => none
              | _ => none
      | _ => none

end

def fuelFor (s : List Char) : Nat := 2 * s.length + 2

def parseChars (s : List Char) : Option Json :=
  match readValue (fuelFor s) maxDepth s with
  | none => none
  | some (v, r) => if (skipBlanks r).isEmpty then some v else none

def parse (s : String) : Option Json := parseChars s.toList

end LightServer.Json
