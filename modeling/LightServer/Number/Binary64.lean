/-!
# Finite binary numbers of 64 bits

A finite binary number is a sign, a mantissa below `2 ^ 53` and an exponent of
two. An operation computes its exact result as a quotient of natural numbers and
rounds it once, to the nearest number that has this form; of two that are equally
near the one with the even mantissa is taken. A quotient that is too large for
the form has no rounding.
-/

namespace LightServer

/-- The finite number `mantissa * 2 ^ exponent`, with a sign. The mantissa is
below `2 ^ 53`, and at least `2 ^ 52` unless the exponent is the least one. -/
structure Binary64 where
  negative : Bool
  mantissa : Nat
  exponent : Int
  deriving DecidableEq, Repr, Inhabited

namespace Binary64

def minExponent : Int := -1074

def maxExponent : Int := 971

def zero : Binary64 := ⟨false, 0, minExponent⟩

/-- The natural number nearest to a quotient, an even one if two are equally near. -/
def roundQuotient (num den : Nat) : Nat :=
  let q := num / den
  let twice := 2 * (num % den)
  if twice < den then q
  else if den < twice then q + 1
  else q + q % 2

def inUnits (num den : Nat) (e : Int) : Nat × Nat :=
  if 0 ≤ e then (num, den * Nat.pow 2 e.toNat)
  else (num * Nat.pow 2 (-e).toNat, den)

def roundAt (num den : Nat) (e : Int) : Nat :=
  roundQuotient (inUnits num den e).1 (inUnits num den e).2

/-- The number for a mantissa of up to `2 ^ 53`, unless it is too large. -/
def ofScaled? (mantissa : Nat) (exponent : Int) : Option Binary64 :=
  let x : Binary64 :=
    if mantissa = Nat.pow 2 53 then ⟨false, Nat.pow 2 52, exponent + 1⟩
    else ⟨false, mantissa, exponent⟩
  if x.exponent ≤ maxExponent then some x else none

def ofQuotient? (num den : Nat) : Option Binary64 :=
  if num = 0 then some zero
  else
    let e : Int := max ((Nat.log2 num : Int) - Nat.log2 den - 53) minExponent
    if roundAt num den e < Nat.pow 2 53 then ofScaled? (roundAt num den e) e
    else ofScaled? (roundAt num den (e + 1)) (e + 1)

def ofNat? (n : Nat) : Option Binary64 := ofQuotient? n 1

def quotient (x : Binary64) : Nat × Nat :=
  if 0 ≤ x.exponent then (x.mantissa * Nat.pow 2 x.exponent.toNat, 1)
  else (x.mantissa, Nat.pow 2 (-x.exponent).toNat)

def mul? (x y : Binary64) : Option Binary64 :=
  ofQuotient? (x.quotient.1 * y.quotient.1) (x.quotient.2 * y.quotient.2)

def div? (x y : Binary64) : Option Binary64 :=
  ofQuotient? (x.quotient.1 * y.quotient.2) (x.quotient.2 * y.quotient.1)

def withSign (negative : Bool) (x : Binary64) : Binary64 := { x with negative }

/-- The largest power of ten that decimal scaling uses in one step. -/
def maxPower : Nat := 308

def tenPow? (k : Nat) : Option Binary64 := ofNat? (Nat.pow 10 k)

/-- Divides `steps` times by the largest power of ten, as long as anything is left. -/
def scaleDownSteps? : Nat → Binary64 → Option Binary64
  | 0, x => some x
  | steps + 1, x =>
      if x.mantissa = 0 then some x
      else ((tenPow? maxPower).bind x.div?).bind (scaleDownSteps? steps)

def scaleDown? (x : Binary64) (k : Nat) : Option Binary64 :=
  let steps := (k - 1) / maxPower
  (scaleDownSteps? steps x).bind fun y => (tenPow? (k - steps * maxPower)).bind y.div?

/-- The number for a decimal significand and a power of ten: the significand is
rounded first, and then each multiplication or division. -/
def ofDecimal? (significand : Nat) (exponent : Int) : Option Binary64 :=
  (ofNat? significand).bind fun x =>
    if exponent < 0 then scaleDown? x (-exponent).toNat
    else if exponent.toNat ≤ maxPower then (tenPow? exponent.toNat).bind x.mul?
    else if significand = 0 then some x
    else none

end Binary64

end LightServer
