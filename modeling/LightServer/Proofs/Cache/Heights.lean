import LightServer.Cache.Basic
import Mathlib.Data.List.Perm.Subperm

/-!
# The heights of a window

A window stands for a run of heights that follow each other. Pushing adds the next height,
and popping takes away the first one. Truncation to a height takes away those from there
on, and names them, unless the height is above the end: then the window grows by heights
that nobody pushed. As long as this does not happen, every height of a window was pushed.

Whether the keys of a map are the heights of a window can be told without asking for each
height. If there are as many keys as heights and every key is one of the heights, none of
them is missing.
-/

namespace LightServer

namespace Window

variable {w w' : Window} {height x : Nat}

inductive Change where
  | push
  | pop
  | truncate (height : Nat)

/-- The window after a change. From an empty window nothing is taken. -/
def after (w : Window) : Change → Window
  | .push => w.push
  | .pop => w.pop.elim w Prod.snd
  | .truncate height => w.truncate height

def afterAll (w : Window) (cs : List Change) : Window := cs.foldl after w

def pushed : Window → List Change → List Nat
  | _, [] => []
  | w, .push :: cs => w.next :: w.push.pushed cs
  | w, c :: cs => (w.after c).pushed cs

/-- One of the changes is a truncation to a height above the end. -/
def Overshoots (w : Window) (cs : List Change) : Prop :=
  ∃ before height rest, cs = before ++ .truncate height :: rest ∧
    (w.afterAll before).next < height

def Gains (x : Nat) (w w' : Window) : Prop := x ∉ w ∧ ∀ y, y ∈ w' ↔ y ∈ w ∨ y = x

/-- The window is a run of heights that follow each other: it is added to at its end, and taken
from at its beginning. -/
structure IsRun (w : Window) : Prop where
  first_le_next : w.first ≤ w.next
  length_eq : w.length = w.next - w.first
  last?_eq_some_iff : ∀ x, w.last? = some x ↔ w.isEmpty = false ∧ x = w.next - 1
  mem_iff : ∀ x, x ∈ w ↔ w.first ≤ x ∧ x < w.next
  gains_push : Gains w.next w w.push
  pop_eq_none_iff : w.pop = none ↔ w.isEmpty = true
  gains_of_pop : ∀ x w', w.pop = some (x, w') → x = w.first ∧ Gains x w' w

/-- Truncation takes away the heights from the given one on, and names them. -/
structure CutsBack (w : Window) (height : Nat) : Prop where
  mem_truncate_iff : ∀ x, x ∈ w.truncate height ↔ x ∈ w ∧ x < height
  mem_dropped_iff : ∀ x, (w.dropped height).1 ≤ x ∧ x < (w.dropped height).2 ↔
    x ∈ w ∧ x ∉ w.truncate height

theorem isEmpty_eq_false_iff : w.isEmpty = false ↔ w.first < w.next := by
  have := w.first_le_next
  simp only [isEmpty, beq_eq_false_iff_ne]
  omega

theorem mem_push : x ∈ w.push ↔ x ∈ w ∨ x = w.next := by
  have := w.first_le_next
  simp only [mem_def, first_push, next_push]
  omega

theorem pop_eq_none_iff : w.pop = none ↔ w.isEmpty = true := by
  rw [← Bool.not_eq_false, isEmpty_eq_false_iff]
  unfold pop
  split <;> simp [*]

theorem gains_of_pop (h : w.pop = some (x, w')) : x = w.first ∧ Gains x w' w := by
  unfold pop at h
  split at h
  next hlt =>
    cases h
    refine ⟨rfl, fun hmem => Nat.lt_irrefl _ hmem.1, fun y => ?_⟩
    simp only [mem_def]
    omega
  next => cases h

theorem mem_truncate : x ∈ w.truncate height ↔ w.first ≤ x ∧ x < height := by
  simp only [mem_def, truncate]
  omega

theorem mem_dropped : (w.dropped height).1 ≤ x ∧ x < (w.dropped height).2 ↔
    x ∈ w ∧ x ∉ w.truncate height := by
  rw [mem_truncate, mem_def]
  simp only [dropped]
  omega

theorem isRun (w : Window) : w.IsRun where
  first_le_next := w.first_le_next
  length_eq := rfl
  last?_eq_some_iff x := by
    rw [isEmpty_eq_false_iff, last?, Option.ite_none_right_eq_some, Option.some.injEq,
      eq_comm (a := x)]
  mem_iff x := mem_def
  gains_push := ⟨fun h => Nat.lt_irrefl _ h.2, fun y => mem_push⟩
  pop_eq_none_iff := pop_eq_none_iff
  gains_of_pop x w' := gains_of_pop

/-- Truncation to a height above the end adds the heights in between. -/
theorem cutsBack_iff : w.CutsBack height ↔ height ≤ w.next := by
  have := w.first_le_next
  constructor
  · intro h
    refine Nat.le_of_not_lt fun hlt => ?_
    have hend : w.next ∈ w.truncate height := mem_truncate.mpr ⟨w.first_le_next, hlt⟩
    exact Nat.lt_irrefl _ ((h.mem_truncate_iff w.next).mp hend).1.2
  · intro hle
    refine ⟨fun x => ?_, fun x => mem_dropped⟩
    rw [mem_truncate, mem_def]
    omega

/-- A change other than a truncation above the end adds no height that is not pushed. -/
theorem mem_of_mem_after {c : Change} (hc : ∀ height, c = .truncate height → height ≤ w.next)
    (hx : x ∈ w.after c) : x ∈ w ∨ (c = .push ∧ x = w.next) := by
  cases c with
  | push => exact (mem_push.mp hx).imp_right fun h => ⟨rfl, h⟩
  | pop =>
      left
      rw [after] at hx
      cases hpop : w.pop with
      | none => rwa [hpop] at hx
      | some p =>
          rw [hpop] at hx
          exact ((gains_of_pop hpop).2.2 x).mpr (.inl hx)
  | truncate height =>
      have hcut := cutsBack_iff.mpr (hc height rfl)
      exact .inl ((hcut.mem_truncate_iff x).mp hx).1

theorem Overshoots.cons {c : Change} {cs : List Change} (h : (w.after c).Overshoots cs) :
    w.Overshoots (c :: cs) := by
  obtain ⟨before, height, rest, rfl, hlt⟩ := h
  exact ⟨c :: before, height, rest, rfl, hlt⟩

/-- The heights of a window were there before, or are pushed, if it is never truncated above its
end. -/
theorem mem_pushed_of_mem_afterAll {cs : List Change} (hcs : ¬ w.Overshoots cs)
    (hx : x ∈ w.afterAll cs) : x ∈ w ∨ x ∈ w.pushed cs := by
  induction cs generalizing w with
  | nil => exact .inl hx
  | cons c cs ih =>
      have hrest : ¬ (w.after c).Overshoots cs := fun h => hcs h.cons
      have hc : ∀ height, c = .truncate height → height ≤ w.next := by
        rintro height rfl
        exact Nat.le_of_not_lt fun hlt => hcs ⟨[], height, cs, rfl, hlt⟩
      rcases ih hrest hx with hmem | hmem
      · rcases mem_of_mem_after hc hmem with hmem | ⟨rfl, rfl⟩
        · exact .inl hmem
        · exact .inr List.mem_cons_self
      · right
        cases c with
        | push => exact List.mem_cons_of_mem _ hmem
        | pop => exact hmem
        | truncate height => exact hmem

/-- Whatever is done to a window, it is a run of heights. It is truncated as it should be by each
height up to its end, and by no other one. If this was so all the time, it has no height that was
not pushed. -/
theorem isRun_and_cutsBack_iff (first : Nat) (cs : List Change) :
    ((primed first).afterAll cs).IsRun ∧
    (∀ height, ((primed first).afterAll cs).CutsBack height ↔
      height ≤ ((primed first).afterAll cs).next) ∧
    (∀ height x, x ∈ ((primed first).afterAll cs).truncate height ↔
      ((primed first).afterAll cs).first ≤ x ∧ x < height) ∧
    (¬ (primed first).Overshoots cs →
      ∀ x ∈ (primed first).afterAll cs, x ∈ (primed first).pushed cs) := by
  refine ⟨isRun _, fun height => cutsBack_iff, fun height x => mem_truncate, fun hcs x hx => ?_⟩
  rcases mem_pushed_of_mem_afterAll hcs hx with hmem | hmem
  · exact absurd hmem.2 (Nat.not_lt.mpr hmem.1)
  · exact hmem

/-- An empty window that is truncated above its end has heights that were never pushed. -/
theorem not_cutsBack_of_primed : ¬ ((primed 10).afterAll [.push]).CutsBack 14 := by
  rw [cutsBack_iff]
  decide

def heights (w : Window) : List Nat := List.range' w.first w.length

@[simp] theorem length_heights (w : Window) : w.heights.length = w.length := List.length_range'

theorem nodup_heights (w : Window) : w.heights.Nodup := List.nodup_range'

@[simp] theorem mem_heights : x ∈ w.heights ↔ x ∈ w := by
  have := w.first_le_next
  rw [heights, List.mem_range'_1, mem_def, length]
  omega

section Keys

variable {α : Type} {m : Std.ExtTreeMap Nat α} {l : List Nat}

/-- As many heights of a window as it has are all of its heights. -/
theorem perm_heights_iff (hl : l.Nodup) :
    l.Perm w.heights ↔ l.length = w.length ∧ ∀ x ∈ l, x ∈ w := by
  constructor
  · intro hperm
    refine ⟨hperm.length_eq.trans w.length_heights, fun x hx => ?_⟩
    exact mem_heights.mp (hperm.mem_iff.mp hx)
  · rintro ⟨hlength, hmem⟩
    have hsub : l ⊆ w.heights := fun x hx => mem_heights.mpr (hmem x hx)
    refine (List.subperm_of_subset hl hsub).perm_of_length_le ?_
    rw [length_heights]
    exact Nat.le_of_eq hlength.symm

theorem matchesKeys_eq_true_iff :
    w.matchesKeys m = true ↔ m.size = w.length ∧ ∀ x ∈ m.keys, x ∈ w := by
  simp [matchesKeys]

/-- The check of a map against a window passes exactly if the keys of the map are the heights of
the window. -/
theorem matchesKeys_iff_mem_iff_mem (w : Window) (m : Std.ExtTreeMap Nat α) :
    w.matchesKeys m = true ↔ ∀ h, h ∈ m ↔ h ∈ w := by
  have hnodup : m.keys.Nodup := by
    refine m.distinct_keys.imp fun hne heq => hne ?_
    exact Nat.compare_eq_eq.mpr heq
  rw [matchesKeys_eq_true_iff, ← Std.ExtTreeMap.length_keys, ← perm_heights_iff hnodup,
    List.perm_ext_iff_of_nodup hnodup w.nodup_heights]
  simp only [Std.ExtTreeMap.mem_keys, mem_heights]

end Keys

end Window

end LightServer
