import LightServer.Bytes.Basic

/-!
# Byte strings of a fixed length

`Octets n` is the type of byte strings of length `n`. The length is part of the
type, so a hash is always 32 bytes long and a field of a binary format cannot
have the wrong size. Two of them are equal when their bytes are.
-/

namespace LightServer

@[ext] structure Octets (n : Nat) where
  bytes : Bytes
  length_eq : bytes.length = n
  deriving DecidableEq

/-- A hash of a block or of a transaction, in the order in which it is computed. -/
abbrev Hash := Octets 32

namespace Octets

attribute [simp] length_eq

def fill (n : Nat) (b : UInt8) : Octets n :=
  ⟨List.replicate n b, List.length_replicate⟩

def zero (n : Nat) : Octets n := fill n 0

instance {n : Nat} : Inhabited (Octets n) := ⟨zero n⟩

def reverse {n : Nat} (x : Octets n) : Octets n :=
  ⟨x.bytes.reverse, by simp⟩

def ofNat (n v : Nat) : Octets n :=
  ⟨Bytes.leBytes n v, Bytes.length_leBytes n v⟩

def toNat {n : Nat} (x : Octets n) : Nat := Bytes.leNat x.bytes

def ofBytes? (n : Nat) (s : Bytes) : Option (Octets n) :=
  if h : s.length = n then some ⟨s, h⟩ else none

def take? (n : Nat) (s : Bytes) : Option (Octets n × Bytes) :=
  if h : Bytes.reaches n s then
    some (⟨s.take n, List.length_take_of_le (Bytes.reaches_iff.mp h)⟩, s.drop n)
  else none

def slice {n : Nat} (x : Octets n) (start len : Nat) (h : start + len ≤ n) : Octets len :=
  ⟨(x.bytes.drop start).take len, by simp; omega⟩

theorem reverse_reverse {n : Nat} (x : Octets n) : x.reverse.reverse = x := by
  ext1
  simp [reverse]

theorem ofBytes?_bytes {n : Nat} (x : Octets n) : ofBytes? n x.bytes = some x := by
  simp [ofBytes?]

theorem ofBytes?_eq_some_iff {n : Nat} {s : Bytes} {x : Octets n} :
    ofBytes? n s = some x ↔ s = x.bytes := by
  constructor
  · intro h
    unfold ofBytes? at h
    split at h
    · cases h
      rfl
    · cases h
  · rintro rfl
    exact ofBytes?_bytes x

theorem take?_append {n : Nat} (x : Octets n) (s : Bytes) :
    take? n (x.bytes ++ s) = some (x, s) := by
  have hr : Bytes.reaches n (x.bytes ++ s) = true := by
    rw [Bytes.reaches_iff, List.length_append, x.length_eq]
    omega
  unfold take?
  rw [dif_pos hr]
  simp only [Option.some.injEq, Prod.mk.injEq]
  exact ⟨Octets.ext (List.take_left' x.length_eq), List.drop_left' x.length_eq⟩

/-- What was taken and what is left make up what there was. -/
theorem eq_append_of_take? {n : Nat} {s r : Bytes} {x : Octets n}
    (h : take? n s = some (x, r)) : s = x.bytes ++ r := by
  unfold take? at h
  split at h
  · cases h
    simp
  · cases h

theorem take?_eq_none_iff {n : Nat} {s : Bytes} : take? n s = none ↔ s.length < n := by
  unfold take?
  split
  · rename_i h
    have := Bytes.reaches_iff.mp h
    simp
    omega
  · rename_i h
    rw [Bytes.reaches_iff] at h
    simp
    omega

theorem toNat_lt {n : Nat} (x : Octets n) : x.toNat < Nat.pow 256 n := by
  have h := Bytes.leNat_lt x.bytes
  rwa [x.length_eq] at h

theorem toNat_ofNat {n v : Nat} (h : v < Nat.pow 256 n) : (ofNat n v).toNat = v :=
  Bytes.leNat_leBytes_of_lt h

theorem ofNat_toNat {n : Nat} (x : Octets n) : ofNat n x.toNat = x := by
  ext1
  have h := Bytes.leBytes_leNat x.bytes
  rwa [x.length_eq] at h

end Octets

end LightServer
