/-!
# Counters with labels

A family of counters has one count for each combination of the values of its labels.
A combination has no count before it is first met, and the counts are shown in the
order of the values.
-/

namespace LightServer.Metrics

abbrev Counts := List (List String × Nat)

namespace Counts

def get (values : List String) : Counts → Nat
  | [] => 0
  | (vs, n) :: cs => if vs = values then n else get values cs

def increment (values : List String) : Counts → Counts
  | [] => [(values, 1)]
  | (vs, n) :: cs =>
      if vs = values then (vs, n + 1) :: cs else (vs, n) :: increment values cs

def textBefore : List Char → List Char → Bool
  | _, [] => false
  | [], _ :: _ => true
  | a :: s, b :: t => a.toNat < b.toNat || (a = b && textBefore s t)

/-- Two combinations are in order: the first value in which they differ decides. -/
def inOrder : List String → List String → Bool
  | [], _ => true
  | _ :: _, [] => false
  | a :: s, b :: t => if a = b then inOrder s t else textBefore a.toList b.toList

def sorted (cs : Counts) : Counts := cs.mergeSort fun a b => inOrder a.1 b.1

theorem get_increment_self (values : List String) (cs : Counts) :
    get values (increment values cs) = get values cs + 1 := by
  induction cs with
  | nil => simp [increment, get]
  | cons c cs ih =>
      obtain ⟨vs, n⟩ := c
      by_cases h : vs = values <;> simp [increment, get, h, ih]

theorem get_increment_of_ne {values other : List String} (h : values ≠ other)
    (cs : Counts) : get other (increment values cs) = get other cs := by
  induction cs with
  | nil => simp [increment, get, h]
  | cons c cs ih =>
      obtain ⟨vs, n⟩ := c
      by_cases hv : vs = values
      · subst hv
        simp [increment, get, h]
      · simp [increment, get, hv, ih]

end Counts

end LightServer.Metrics
