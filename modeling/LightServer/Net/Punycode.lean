/-!
# Labels in ASCII form

A label with characters beyond the ASCII set has a form in that set. After its ASCII
characters and a hyphen stand the others as steps through all pairs of a character and
a place, in increasing order. A step is written in digits to the base of thirty-six, the
last one below a threshold that follows the steps before.
-/

namespace LightServer.Net.Punycode

/-- The value of a digit: letters come before decimal digits. -/
def digit? (c : Char) : Option Nat :=
  if c.isLower then some (c.toNat - 0x61)
  else if c.isUpper then some (c.toNat - 0x41)
  else if c.isDigit then some (c.toNat - 0x30 + 26)
  else none

def threshold (k bias : Nat) : Nat := min 26 (max 1 (k - bias))

def shrink (delta k : Nat) : Nat × Nat :=
  if 455 < delta then shrink (delta / 35) (k + 36) else (delta, k)
termination_by delta
decreasing_by omega

def adapt (delta points : Nat) (first : Bool) : Nat :=
  let d := if first then delta / 700 else delta / 2
  let r := shrink (d + d / points) 0
  r.2 + 36 * r.1 / (r.1 + 38)

/-- Reads a step and adds it to `i`. The weight of the first digit is `w`. -/
def readStep (bias : Nat) : List Char → Nat → Nat → Nat → Option (Nat × List Char)
  | [], _, _, _ => none
  | c :: s, k, w, i => do
      let d ← digit? c
      let t := threshold k bias
      if d < t then return (i + d * w, s)
      else readStep bias s (k + 36) (w * (36 - t)) (i + d * w)

/-- A step takes up text. -/
theorem readStep_length {bias : Nat} {s : List Char} {k w i : Nat} {r : Nat × List Char}
    (h : readStep bias s k w i = some r) : r.2.length < s.length := by
  induction s generalizing k w i with
  | nil => simp [readStep] at h
  | cons c s ih =>
    simp only [readStep] at h
    cases hd : digit? c with
    | none => simp [hd] at h
    | some d =>
      simp only [hd, Option.bind_eq_bind, Option.bind_some] at h
      split at h
      · obtain rfl := Option.some.inj h
        simp
      · exact Nat.lt_succ_of_lt (ih h)

def isScalar (n : Nat) : Bool := n < 0xD800 || (0xDFFF < n && n < 0x110000)

def insertAll (bias n i : Nat) (out : List Char) (s : List Char) : Option (List Char) :=
  match h : readStep bias s 36 1 i with
  | none => if s.isEmpty then some out else none
  | some (j, rest) =>
      let points := out.length + 1
      let m := n + j / points
      let place := j % points
      if isScalar m then
        insertAll (adapt (j - i) points (i = 0)) m (place + 1)
          (out.insertIdx place (Char.ofNat m)) rest
      else none
termination_by s.length
decreasing_by exact readStep_length h

def decode (s : List Char) : Option (List Char) :=
  let steps := (s.reverse.takeWhile (· ≠ '-')).reverse
  let basic := (s.take (s.length - steps.length)).dropLast
  insertAll 72 0x80 0 basic steps

end LightServer.Net.Punycode
