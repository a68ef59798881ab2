import LightServer.Chain.Block

/-!
# Linked blocks

A list of blocks is linked when each block names the one before it as its
parent. Taking blocks away at either end keeps a list linked, and a block may
be put at the end when it extends the last one.
-/

namespace LightServer

namespace CompactBlock

def ExtendsLast (b : CompactBlock) (bs : List CompactBlock) : Prop :=
  ∀ p, bs.getLast? = some p → b.Extends p.hash

theorem extendsLast_nil (b : CompactBlock) : b.ExtendsLast [] := by
  intro p hp
  simp at hp

theorem linked_take {bs : List CompactBlock} (h : Linked bs) (n : Nat) :
    Linked (bs.take n) := by
  intro i a b ha hb
  rw [List.getElem?_take] at ha hb
  split at ha
  · split at hb
    · exact h i a b ha hb
    · cases hb
  · cases ha

theorem linked_tail {a : CompactBlock} {bs : List CompactBlock} (h : Linked (a :: bs)) :
    Linked bs := by
  intro i x y hx hy
  exact h (i + 1) x y (by rwa [List.getElem?_cons_succ]) (by rwa [List.getElem?_cons_succ])

theorem linked_drop {bs : List CompactBlock} (h : Linked bs) (n : Nat) :
    Linked (bs.drop n) := by
  intro i a b ha hb
  rw [List.getElem?_drop] at ha hb
  exact h (n + i) a b ha hb

theorem linked_cons {a b : CompactBlock} {bs : List CompactBlock} (hab : b.Extends a.hash)
    (h : Linked (b :: bs)) : Linked (a :: b :: bs) := by
  intro i x y hx hy
  cases i with
  | zero =>
      cases hx
      cases hy
      exact hab
  | succ i => exact h i x y hx hy

theorem linked_concat {bs : List CompactBlock} {b : CompactBlock} (h : Linked bs)
    (hb : b.ExtendsLast bs) : Linked (bs ++ [b]) := by
  intro i x y hx hy
  by_cases hlast : i + 1 = bs.length
  · have hy' : y = b := by
      rw [hlast, List.getElem?_append_right (Nat.le_refl _)] at hy
      simpa using hy.symm
    have hx' : bs.getLast? = some x := by
      rw [List.getElem?_append_left (by omega)] at hx
      rw [List.getLast?_eq_getElem?, ← hlast]
      exact hx
    rw [hy']
    exact hb x hx'
  · have hi : i + 1 < bs.length := by
      have hlt := (List.getElem?_eq_some_iff.mp hy).1
      rw [List.length_append, List.length_singleton] at hlt
      omega
    rw [List.getElem?_append_left (by omega)] at hx
    rw [List.getElem?_append_left hi] at hy
    exact h i x y hx hy

/-- Two linked lists that share a block, the last of one and the first of the other, are linked
where they meet. -/
theorem linked_append_cons {bs rs : List CompactBlock} {b : CompactBlock}
    (hbs : Linked (bs ++ [b])) (hrs : Linked (b :: rs)) : Linked (bs ++ b :: rs) := by
  intro i x y hx hy
  by_cases hi : i < bs.length
  · rw [List.append_cons, List.getElem?_append_left (by simp; omega)] at hx hy
    exact hbs i x y hx hy
  · rw [List.getElem?_append_right (by omega)] at hx hy
    rw [Nat.sub_add_comm (by omega)] at hy
    exact hrs (i - bs.length) x y hx hy

/-- In a linked list each block extends what comes before it. -/
theorem extendsLast_of_linked_append {bs rs : List CompactBlock} {b : CompactBlock}
    (h : Linked (bs ++ b :: rs)) : b.ExtendsLast bs := by
  intro p hp
  rw [List.getLast?_eq_getElem?] at hp
  have hlast := (List.getElem?_eq_some_iff.mp hp).1
  refine h (bs.length - 1) p b ?_ ?_
  · rw [List.getElem?_append_left hlast]
    exact hp
  · rw [List.getElem?_append_right (by omega), show bs.length - 1 + 1 - bs.length = 0 by omega]
    rfl

end CompactBlock

end LightServer
