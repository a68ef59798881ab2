/-!
# Whole numbers in decimal text

A whole number is written as decimal digits, with a leading `+` that may always
be present and a leading `-` only where negative numbers exist. The digits are
read from the left, and the first thing that goes wrong is what is reported: a
character that is no digit, or a number that no longer fits.
-/

namespace LightServer.Text

inductive IntegerFault where
  | empty
  | invalidDigit
  | tooLarge
  | tooSmall
  deriving DecidableEq, Repr

def IntegerFault.message : IntegerFault → String
  | empty => "cannot parse integer from empty string"
  | invalidDigit => "invalid digit found in string"
  | tooLarge => "number too large to fit in target type"
  | tooSmall => "number too small to fit in target type"

def digitValue? (c : Char) : Option Nat :=
  if c.isDigit then some (c.toNat - 48) else none

/-- Reads digits after the number `acc`, as long as the number stays at or below
`limit`; going above it is the fault `excess`. -/
def readDigits (limit : Nat) (excess : IntegerFault) :
    Nat → List Char → Except IntegerFault Nat
  | acc, [] => .ok acc
  | acc, c :: s =>
      match digitValue? c with
      | none => .error .invalidDigit
      | some d =>
          if acc * 10 + d ≤ limit then readDigits limit excess (acc * 10 + d) s
          else .error excess

def readUnsigned (limit : Nat) (excess : IntegerFault) :
    List Char → Except IntegerFault Nat
  | [] => .error .invalidDigit
  | s => readDigits limit excess 0 s

def readNat (limit : Nat) : List Char → Except IntegerFault Nat
  | [] => .error .empty
  | '+' :: s => readUnsigned limit .tooLarge s
  | s => readUnsigned limit .tooLarge s

def readInt (limit : Nat) : List Char → Except IntegerFault Int
  | [] => .error .empty
  | '+' :: s => (readUnsigned limit .tooLarge s).map Int.ofNat
  | '-' :: s => (readUnsigned (limit + 1) .tooSmall s).map fun n => -(n : Int)
  | s => (readUnsigned limit .tooLarge s).map Int.ofNat

def maxWord16 : Nat := 0xFFFF

def maxWord64 : Nat := 0xFFFFFFFFFFFFFFFF

def maxInt64 : Nat := 0x7FFFFFFFFFFFFFFF

def decimal (n : Nat) : String := String.ofList (Nat.toDigits 10 n)

def decimalInt : Int → String
  | .ofNat n => decimal n
  | .negSucc n => "-" ++ decimal (n + 1)

end LightServer.Text
