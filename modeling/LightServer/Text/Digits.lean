/-!
# Digits of a radix

The digits of a radix up to sixteen, with letters of either case for the values from ten
on.
-/

namespace LightServer.Text

def digitIn? (radix : Nat) (c : Char) : Option Nat :=
  let v :=
    if c.isDigit then c.toNat - 48
    else if 'a' ≤ c ∧ c ≤ 'f' then c.toNat - 87
    else if 'A' ≤ c ∧ c ≤ 'F' then c.toNat - 55
    else radix
  if v < radix then some v else none

def spanDigitsIn (radix : Nat) : List Char → List Nat × List Char
  | [] => ([], [])
  | c :: s =>
      match digitIn? radix c with
      | none => ([], c :: s)
      | some d => (d :: (spanDigitsIn radix s).1, (spanDigitsIn radix s).2)

def ofDigitsIn (radix : Nat) (ds : List Nat) : Nat := ds.foldl (fun n d => radix * n + d) 0

end LightServer.Text
