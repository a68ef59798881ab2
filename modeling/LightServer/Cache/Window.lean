import LightServer.Chain.Block

/-!
# The window of cached heights

The cached heights follow each other without gaps. A window holds the first of
them and the height after the last one. An empty window still knows the height of
the block that it takes next.
-/

namespace LightServer

/-- The heights from `first` up to, but not including, `next`. -/
structure Window where
  first : Nat
  next : Nat
  first_le_next : first ≤ next
  deriving DecidableEq

namespace Window

def primed (height : Nat) : Window := ⟨height, height, Nat.le_refl height⟩

def length (w : Window) : Nat := w.next - w.first

def isEmpty (w : Window) : Bool := w.next == w.first

def last? (w : Window) : Option Nat := if w.first < w.next then some (w.next - 1) else none

instance : Membership Nat Window where
  mem w h := w.first ≤ h ∧ h < w.next

instance (h : Nat) (w : Window) : Decidable (h ∈ w) :=
  inferInstanceAs (Decidable (w.first ≤ h ∧ h < w.next))

theorem mem_def {h : Nat} {w : Window} : h ∈ w ↔ w.first ≤ h ∧ h < w.next := Iff.rfl

/-- The window that takes the block at a height next. A height below the first one
empties it, and one above the next extends it. -/
def truncate (height : Nat) (w : Window) : Window :=
  ⟨w.first, max height w.first, Nat.le_max_right _ _⟩

/-- The heights that truncation takes away, as a first one and the one after the
last. -/
def dropped (height : Nat) (w : Window) : Nat × Nat := (max height w.first, w.next)

def push (w : Window) : Window := ⟨w.first, w.next + 1, Nat.le_succ_of_le w.first_le_next⟩

def pop (w : Window) : Option (Nat × Window) :=
  if h : w.first < w.next then some (w.first, ⟨w.first + 1, w.next, h⟩) else none

def Bounded (n : Nat) (w : Window) : Prop := w.length ≤ n

instance (n : Nat) (w : Window) : Decidable (w.Bounded n) :=
  inferInstanceAs (Decidable (w.length ≤ n))

@[simp] theorem first_primed (h : Nat) : (primed h).first = h := rfl

@[simp] theorem next_primed (h : Nat) : (primed h).next = h := rfl

@[simp] theorem first_push (w : Window) : w.push.first = w.first := rfl

@[simp] theorem next_push (w : Window) : w.push.next = w.next + 1 := rfl

end Window

end LightServer
