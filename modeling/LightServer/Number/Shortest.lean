import LightServer.Number.Binary64

/-!
# The shortest decimal digits of a binary number

The digits of a binary number are the fewest that are read back as that number.
The numbers that are read back lie between the midpoints to the two neighbours,
and the midpoints belong to them where the mantissa is even. For one digit, two
digits and so on the two points of the decimal grid next to the number are tried;
of two points that fit the nearer one is taken, and the even one of two that are
equally near.
-/

namespace LightServer.Shortest

/-- The magnitude of a number and the midpoints to its neighbours, as multiples of
one unit, and the unit as a quotient. -/
structure Neighbourhood where
  value : Nat
  low : Nat
  high : Nat
  unit : Nat × Nat
  closed : Bool

/-- The neighbourhood of a number, in quarters of its last place. -/
def neighbourhood (x : Binary64) : Neighbourhood :=
  let m := x.mantissa
  let narrow := m = Nat.pow 2 52 ∧ Binary64.minExponent < x.exponent
  let scale := x.exponent - 2
  { value := 4 * m
    low := if narrow then 4 * m - 1 else 4 * m - 2
    high := 4 * m + 2
    unit := if 0 ≤ scale then (Nat.pow 2 scale.toNat, 1) else (1, Nat.pow 2 (-scale).toNat)
    closed := m % 2 = 0 }

structure Decimal where
  digits : Nat
  exponent : Int
  deriving Repr

/-- The size of a step of the grid `10 ^ k` and of the unit, over a common
denominator. -/
def gridSteps (n : Neighbourhood) (k : Int) : Nat × Nat :=
  if 0 ≤ k then (Nat.pow 10 k.toNat * n.unit.2, n.unit.1)
  else (n.unit.2, n.unit.1 * Nat.pow 10 (-k).toNat)

def fits (n : Neighbourhood) (k : Int) (c : Nat) : Bool :=
  let p := c * (gridSteps n k).1
  let u := (gridSteps n k).2
  if n.closed then n.low * u ≤ p && p ≤ n.high * u else n.low * u < p && p < n.high * u

def distance (n : Neighbourhood) (k : Int) (c : Nat) : Nat :=
  let p := c * (gridSteps n k).1
  let v := n.value * (gridSteps n k).2
  (p - v) + (v - p)

def onGrid? (n : Neighbourhood) (k : Int) : Option Decimal :=
  let below := n.value * (gridSteps n k).2 / (gridSteps n k).1
  let above := below + 1
  match fits n k below, fits n k above with
  | false, false => none
  | true, false => some ⟨below, k⟩
  | false, true => some ⟨above, k⟩
  | true, true =>
      if distance n k below < distance n k above then some ⟨below, k⟩
      else if distance n k above < distance n k below then some ⟨above, k⟩
      else if below % 2 = 0 then some ⟨below, k⟩ else some ⟨above, k⟩

/-- The number of places before the point of a quotient of at least one, and minus
the number of zeros after the point of a smaller one. -/
def places (num den : Nat) : Int :=
  if den ≤ num then (Nat.toDigits 10 (num / den)).length
  else 1 - (Nat.toDigits 10 ((den - 1) / num)).length

def Decimal.strip (d : Decimal) : Decimal :=
  if h : d.digits ≠ 0 ∧ d.digits % 10 = 0 then Decimal.strip ⟨d.digits / 10, d.exponent + 1⟩
  else d
termination_by d.digits
decreasing_by omega

def decimal (x : Binary64) : Decimal :=
  if x.mantissa = 0 then ⟨0, 0⟩
  else
    let n := neighbourhood x
    let top := places x.quotient.1 x.quotient.2
    let grids := (List.range 17).map fun i => top - (i + 1 : Nat)
    ((grids.findSome? (onGrid? n)).getD ⟨0, 0⟩).strip

def signed (x : Binary64) (s : List Char) : String :=
  String.ofList (if x.negative then '-' :: s else s)

def withZeros (digits : List Char) (n : Nat) : List Char := digits ++ List.replicate n '0'

/-- The shortest digits in positional form; whole numbers have no point. -/
def positionalChars (d : Decimal) : List Char :=
  let digits := Nat.toDigits 10 d.digits
  if 0 ≤ d.exponent then withZeros digits d.exponent.toNat
  else
    let after := (-d.exponent).toNat
    if after < digits.length then
      digits.take (digits.length - after) ++ '.' :: digits.drop (digits.length - after)
    else '0' :: '.' :: (List.replicate (after - digits.length) '0' ++ digits)

def positional (x : Binary64) : String := signed x (positionalChars (decimal x))

def positionalPointed (x : Binary64) : String :=
  let s := positionalChars (decimal x)
  signed x (if s.contains '.' then s else s ++ ['.', '0'])

def signedExponent (e : Int) : List Char :=
  (if e < 0 then '-' else '+') :: Nat.toDigits 10 e.natAbs

def scientificChars (d : Decimal) : List Char :=
  let digits := Nat.toDigits 10 d.digits
  match digits with
  | c :: r =>
      (if r.isEmpty then [c] else c :: '.' :: r) ++
        'e' :: signedExponent (d.exponent + digits.length - 1)
  | [] => []

/-- A number in the form that JSON text uses: positional with a point from `1e-5` up
to `1e16`, and with an exponent outside. -/
def json (x : Binary64) : String :=
  if x.mantissa = 0 then signed x ['0', '.', '0']
  else
    let d := decimal x
    let top := d.exponent + (Nat.toDigits 10 d.digits).length
    if -5 < top ∧ top ≤ 16 then positionalPointed x else signed x (scientificChars d)

end LightServer.Shortest
