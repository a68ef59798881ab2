/-!
# Byte strings and little-endian numbers

A byte string is a list of bytes, so that readers and writers are recursions on
the data. `leNat` reads a byte string as a number, the least significant byte
first, and `leBytes w` writes a number into `w` bytes, dropping what lies above
`256 ^ w`. The two are inverse to each other on strings of width `w` and on
numbers below `256 ^ w`.
-/

namespace LightServer

abbrev Bytes := List UInt8

namespace Bytes

def leNat : Bytes → Nat
  | [] => 0
  | b :: s => b.toNat + 256 * leNat s

def leBytes : Nat → Nat → Bytes
  | 0, _ => []
  | w + 1, n => UInt8.ofNat n :: leBytes w (n / 256)

@[simp] theorem leNat_nil : leNat [] = 0 := rfl

theorem leNat_cons (b : UInt8) (s : Bytes) :
    leNat (b :: s) = b.toNat + 256 * leNat s := rfl

@[simp] theorem length_leBytes (w n : Nat) : (leBytes w n).length = w := by
  induction w generalizing n with
  | zero => rfl
  | succ w ih => simp [leBytes, ih]

/-- A byte string denotes a number below `256` to the power of its length. -/
theorem leNat_lt (s : Bytes) : leNat s < Nat.pow 256 s.length := by
  induction s with
  | nil => simp
  | cons b s ih =>
      have hb := b.toNat_lt
      have hp : Nat.pow 256 (b :: s).length = Nat.pow 256 s.length * 256 := rfl
      rw [leNat_cons, hp]
      omega

/-- Reading what was written gives the number back, up to its width. -/
theorem leNat_leBytes (w n : Nat) : leNat (leBytes w n) = n % Nat.pow 256 w := by
  induction w generalizing n with
  | zero => simp [leBytes, Nat.mod_one]
  | succ w ih =>
      have h256 : (UInt8.ofNat n).toNat = n % 256 := by simp
      have hp : Nat.pow 256 (w + 1) = Nat.pow 256 w * 256 := rfl
      rw [leBytes, leNat_cons, ih, h256, hp, Nat.mul_comm (Nat.pow 256 w) 256, Nat.mod_mul]

theorem leNat_leBytes_of_lt {w n : Nat} (h : n < Nat.pow 256 w) :
    leNat (leBytes w n) = n := by
  rw [leNat_leBytes, Nat.mod_eq_of_lt h]

/-- Writing what was read gives the byte string back. -/
theorem leBytes_leNat (s : Bytes) : leBytes s.length (leNat s) = s := by
  induction s with
  | nil => rfl
  | cons b s ih =>
      have hb := b.toNat_lt
      have hdiv : (b.toNat + 256 * leNat s) / 256 = leNat s := by omega
      have hmod : UInt8.ofNat (b.toNat + 256 * leNat s) = b := by
        apply UInt8.toNat_inj.mp
        simp only [UInt8.toNat_ofNat', Nat.reducePow]
        omega
      rw [List.length_cons, leNat_cons, leBytes, hdiv, hmod, ih]

/-- There are at least `n` bytes. Only that many of them are looked at. -/
def reaches : Nat → Bytes → Bool
  | 0, _ => true
  | _ + 1, [] => false
  | n + 1, _ :: s => reaches n s

theorem reaches_iff {n : Nat} {s : Bytes} : reaches n s = true ↔ n ≤ s.length := by
  induction n generalizing s with
  | zero => simp [reaches]
  | succ n ih =>
      cases s with
      | nil => simp [reaches]
      | cons b s => simp [reaches, ih]

end Bytes

end LightServer
