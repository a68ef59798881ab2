import LightServer.Json.Basic
import LightServer.Text.Integer

/-!
# Numbers in JSON text

A number has digits before the point, none of which is a leading zero, perhaps
digits after a point, and perhaps an exponent. Without point and exponent it is a
whole number where it fits into 64 bits, and otherwise a binary number. The
significand keeps as many digits as fit into 64 bits; the digits that are left
out before the point raise the exponent, and those after it are ignored.
-/

namespace LightServer.Json

def spanDigits : List Char → List Nat × List Char
  | [] => ([], [])
  | c :: s =>
      match Text.digitValue? c with
      | none => ([], c :: s)
      | some d => (d :: (spanDigits s).1, (spanDigits s).2)

structure NumberText where
  negative : Bool
  whole : List Nat
  fraction : Option (List Nat)
  exponent : Option (Bool × List Nat)
  deriving Repr

/-- The digits before the point: a zero, or digits that do not begin with one. -/
def scanWhole (s : List Char) : Option (List Nat × List Char) :=
  match spanDigits s with
  | ([], _) => none
  | (0 :: _ :: _, _) => none
  | (ds, r) => some (ds, r)

def scanFraction : List Char → Option (Option (List Nat) × List Char)
  | '.' :: s =>
      match spanDigits s with
      | ([], _) => none
      | (ds, r) => some (some ds, r)
  | s => some (none, s)

def scanExponentDigits (negative : Bool) (s : List Char) :
    Option (Option (Bool × List Nat) × List Char) :=
  match spanDigits s with
  | ([], _) => none
  | (ds, r) => some (some (negative, ds), r)

def scanSignedExponent : List Char → Option (Option (Bool × List Nat) × List Char)
  | '+' :: s => scanExponentDigits false s
  | '-' :: s => scanExponentDigits true s
  | s => scanExponentDigits false s

def scanExponent : List Char → Option (Option (Bool × List Nat) × List Char)
  | 'e' :: s => scanSignedExponent s
  | 'E' :: s => scanSignedExponent s
  | s => some (none, s)

def scanSign : List Char → Bool × List Char
  | '-' :: s => (true, s)
  | s => (false, s)

def scanNumber (s : List Char) : Option (NumberText × List Char) := do
  let (negative, s) := scanSign s
  let (whole, s) ← scanWhole s
  let (fraction, s) ← scanFraction s
  let (exponent, s) ← scanExponent s
  return ({ negative, whole, fraction, exponent }, s)

def ofDigits (ds : List Nat) : Nat := ds.foldl (fun n d => 10 * n + d) 0

/-- Appends digits to a significand for as long as it fits into 64 bits, and returns
the digits that are left. -/
def absorb : Nat → List Nat → Nat × List Nat
  | n, [] => (n, [])
  | n, d :: ds => if 10 * n + d ≤ Text.maxWord64 then absorb (10 * n + d) ds else (n, d :: ds)

namespace NumberText

def exponentValue (t : NumberText) : Int :=
  match t.exponent with
  | none => 0
  | some (true, ds) => -(ofDigits ds : Int)
  | some (false, ds) => ofDigits ds

def float? (t : NumberText) : Option Json :=
  let whole := absorb 0 t.whole
  let digits := t.fraction.getD []
  let all := absorb whole.1 digits
  let exponent : Int := whole.2.length - (digits.length - all.2.length : Nat) + t.exponentValue
  (Binary64.ofDecimal? all.1 exponent).map fun x => .float (x.withSign t.negative)

def value? (t : NumberText) : Option Json :=
  match t.fraction, t.exponent with
  | none, none =>
      let n := ofDigits t.whole
      if t.negative then
        if 0 < n ∧ n ≤ Text.maxInt64 + 1 then some (.integer (-(n : Int))) else t.float?
      else if n ≤ Text.maxWord64 then some (.integer n) else t.float?
  | _, _ => t.float?

end NumberText

def readNumber (s : List Char) : Option (Json × List Char) := do
  let (t, s) ← scanNumber s
  return (← t.value?, s)

end LightServer.Json
