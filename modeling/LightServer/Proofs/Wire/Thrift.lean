import LightServer.Wire.Block
import LightServer.Proofs.Wire.Reading

/-!
# Items are paid for in bytes

A count can claim more items than any memory holds, so what bounds the work of a reader
is that each item takes bytes of its own. A reader is thrifty if it begins no more items
than it takes bytes. When it fails, the items that it was in the middle of may not have
been paid for yet. These are two at most, a transaction and a part of it, and the header
of the block has paid for them in advance.
-/

namespace LightServer.Wire

namespace Reader

variable {α β : Type} {a b k l n size : Nat} {field : String}

/-- The reader begins no more items than it takes bytes, but for `debt` of them if it fails. If it
does not fail, it takes at least `spare` bytes more than that. -/
def Thrifty (spare debt : Nat) (r : Reader α) : Prop :=
  ∀ s, (r s).items + (r s).rest.length ≤ s.length + debt ∧
    ∀ x, (r s).outcome = .ok x → spare + (r s).items + (r s).rest.length ≤ s.length

theorem Thrifty.mono {r : Reader α} (h : r.Thrifty a k) (ha : b ≤ a) (hk : k ≤ l) :
    r.Thrifty b l := by
  intro s
  obtain ⟨hall, hok⟩ := h s
  refine ⟨by omega, fun x hx => ?_⟩
  have := hok x hx
  omega

/-- What was taken before can pay for what comes after. -/
theorem Thrifty.bind_paid {r : Reader α} {f : α → Reader β} (hr : r.Thrifty a k)
    (hf : ∀ x, (f x).Thrifty 0 (a + k)) : (r >>= f).Thrifty a k := by
  intro s
  obtain ⟨hall, hok⟩ := hr s
  cases hfirst : (r s).outcome with
  | error e =>
      rw [bind_of_error hfirst]
      exact ⟨hall, nofun⟩
  | ok x =>
      have hspare := hok x hfirst
      obtain ⟨hall', hok'⟩ := hf x (r s).rest
      rw [bind_of_ok hfirst]
      refine ⟨by simp only; omega, fun y hy => ?_⟩
      have := hok' y hy
      simp only
      omega

theorem Thrifty.bind {r : Reader α} {f : α → Reader β} (hr : r.Thrifty a k)
    (hf : ∀ x, (f x).Thrifty 0 k) : (r >>= f).Thrifty a k :=
  hr.bind_paid fun x => (hf x).mono (Nat.le_refl 0) (Nat.le_add_left k a)

theorem thrifty_pure (x : α) : (pure x : Reader α).Thrifty 0 k := by
  intro s
  change 0 + s.length ≤ s.length + k ∧ ∀ y, Except.ok x = Except.ok y → 0 + 0 + s.length ≤ s.length
  exact ⟨by omega, fun _ _ => by omega⟩

theorem thrifty_refuse (e : ParseError) : (refuse e : Reader α).Thrifty a k := by
  intro s
  change 0 + s.length ≤ s.length + k ∧ _
  exact ⟨by omega, nofun⟩

theorem thrifty_take (field : String) (ha : a ≤ n) : (take n field).Thrifty a k := by
  intro s
  unfold take
  cases htake : Octets.take? n s with
  | none => exact ⟨by simp only; omega, nofun⟩
  | some p =>
      have hs := congrArg List.length (Octets.eq_append_of_take? htake)
      rw [List.length_append, p.1.length_eq] at hs
      simp only
      exact ⟨by omega, fun _ _ => by omega⟩

theorem thrifty_number (field : String) (ha : a ≤ n) : (number n field).Thrifty a k :=
  (thrifty_take field ha).bind fun _ => thrifty_pure _

theorem thrifty_atLeast (low value : Nat) : (atLeast low value).Thrifty 0 k := by
  unfold atLeast
  split
  · exact thrifty_refuse _
  · exact thrifty_pure _

theorem thrifty_compactSize (field : String) (ha : a ≤ 1) : (compactSize field).Thrifty a k := by
  refine (thrifty_number field ha).bind fun first => ?_
  split
  · exact (thrifty_number field (Nat.zero_le 2)).bind fun _ => thrifty_atLeast _ _
  · exact (thrifty_number field (Nat.zero_le 4)).bind fun _ => thrifty_atLeast _ _
  · exact (thrifty_number field (Nat.zero_le 8)).bind fun _ => thrifty_atLeast _ _
  · exact thrifty_pure _

theorem thrifty_count (field : String) (size : Nat) (ha : a ≤ 1) :
    (count field size).Thrifty a k := by
  refine (thrifty_compactSize field ha).bind fun n => ?_
  intro s
  dsimp only
  split
  · exact ⟨by simp only; omega, fun _ _ => by simp only; omega⟩
  · exact ⟨by simp only; omega, nofun⟩

theorem thrifty_varBytes (field : String) (ha : a ≤ 1) : (varBytes field).Thrifty a k :=
  (thrifty_count field 1 ha).bind fun n =>
    (thrifty_take field (Nat.zero_le n)).bind fun _ => thrifty_pure _

/-- An item that fails has not paid for itself. -/
theorem Thrifty.item {r : Reader α} (hr : r.Thrifty (a + 1) k) : (item r).Thrifty a (k + 1) := by
  intro s
  obtain ⟨hall, hok⟩ := hr s
  change (1 + (r s).items) + (r s).rest.length ≤ s.length + (k + 1) ∧
    ∀ x, (r s).outcome = .ok x → a + (1 + (r s).items) + (r s).rest.length ≤ s.length
  refine ⟨by omega, fun x hx => ?_⟩
  have := hok x hx
  omega

/-- Of the items of a list at most one has not paid for itself, the one that fails. -/
theorem Thrifty.times {r : Reader α} (hr : r.Thrifty 1 k) : ∀ n, (times r n).Thrifty 0 (k + 1)
  | 0 => thrifty_pure _
  | n + 1 => hr.item.bind fun _ => (Thrifty.times hr n).bind fun _ => thrifty_pure _

theorem Thrifty.list {r : Reader α} (hr : r.Thrifty 1 k) (field : String) (size : Nat) :
    (list field size r).Thrifty 0 (k + 1) :=
  (thrifty_count field size (Nat.zero_le 1)).bind hr.times

end Reader

open Reader

variable {k : Nat}

theorem Input.thrifty_read : Input.read.Thrifty 1 k :=
  (thrifty_take _ (by decide)).bind fun _ => (thrifty_take _ (Nat.zero_le _)).bind fun _ =>
    (thrifty_varBytes _ (Nat.zero_le _)).bind fun _ =>
      (thrifty_take _ (Nat.zero_le _)).bind fun _ => thrifty_pure _

theorem Output.thrifty_read : Output.read.Thrifty 1 k :=
  (thrifty_take _ (by decide)).bind fun _ => (thrifty_varBytes _ (Nat.zero_le _)).bind fun _ =>
    thrifty_pure _

theorem JoinSplits.thrifty_read (size : Nat) : (JoinSplits.read size).Thrifty 0 k :=
  (thrifty_count _ _ (Nat.zero_le _)).bind fun _ => (thrifty_take _ (Nat.zero_le _)).bind fun _ =>
    (thrifty_take _ (Nat.zero_le _)).bind fun _ => thrifty_pure _

namespace Transaction

theorem thrifty_readShielded (v : Version) {size : Nat} (hsize : 0 < size)
    (counted each : String) : (readShielded v size counted each).Thrifty 0 (k + 1) := by
  unfold readShielded
  split
  · exact (thrifty_take each hsize).list counted size
  · exact thrifty_pure _

theorem thrifty_readJoinSplits (v : Version) : (readJoinSplits v).Thrifty 0 k := by
  unfold readJoinSplits
  split
  · exact JoinSplits.thrifty_read _
  · exact thrifty_pure _

theorem thrifty_readBody (v : Version) : (readBody v).Thrifty 0 1 :=
  (thrifty_take _ (Nat.zero_le _)).bind fun _ => (Input.thrifty_read.list _ _).bind fun _ =>
    (Output.thrifty_read.list _ _).bind fun _ => (thrifty_take _ (Nat.zero_le _)).bind fun _ =>
      (thrifty_take _ (Nat.zero_le _)).bind fun _ => (thrifty_take _ (Nat.zero_le _)).bind fun _ =>
        (thrifty_readShielded v (by decide) _ _).bind fun _ =>
          (thrifty_readShielded v (by decide) _ _).bind fun _ =>
            (thrifty_readJoinSplits v).bind fun _ => (thrifty_take _ (Nat.zero_le _)).bind fun _ =>
              thrifty_pure _

theorem thrifty_read : Transaction.read.Thrifty 1 1 := by
  refine (thrifty_number _ (by decide)).bind fun header => ?_
  split
  · exact thrifty_readBody _
  · exact thrifty_refuse _

end Transaction

/-- A header pays for the items that a block may fail in. -/
theorem Header.thrifty_read : Header.read.Thrifty 2 0 :=
  (thrifty_take _ (by decide)).bind fun _ => (thrifty_take _ (Nat.zero_le _)).bind fun _ =>
    (thrifty_take _ (Nat.zero_le _)).bind fun _ => (thrifty_take _ (Nat.zero_le _)).bind fun _ =>
      (thrifty_take _ (Nat.zero_le _)).bind fun _ => (thrifty_take _ (Nat.zero_le _)).bind fun _ =>
        (thrifty_take _ (Nat.zero_le _)).bind fun _ =>
          (thrifty_varBytes _ (Nat.zero_le _)).bind fun _ => thrifty_pure _

namespace Block

theorem thrifty_readCoinbase (height : Nat) : (readCoinbase height).Thrifty 1 1 := by
  refine Transaction.thrifty_read.bind fun t => ?_
  split
  · exact thrifty_pure _
  · exact thrifty_refuse _

theorem thrifty_readTransactions (height n : Nat) : (readTransactions height n).Thrifty 0 2 := by
  cases n with
  | zero => exact thrifty_refuse _
  | succ n =>
      exact (thrifty_readCoinbase height).item.bind fun _ =>
        (Transaction.thrifty_read.times n).bind fun _ => thrifty_pure _

theorem thrifty_readEnd : readEnd.Thrifty 0 k := by
  intro s
  unfold readEnd
  split
  · exact ⟨by simp only; omega, fun _ _ => by simp only; omega⟩
  · exact ⟨by simp only; omega, nofun⟩

theorem thrifty_read (height : Nat) : (Block.read height).Thrifty 2 0 :=
  Header.thrifty_read.bind_paid fun _ => (thrifty_count _ _ (Nat.zero_le _)).bind fun _ =>
    (thrifty_readTransactions height _).bind fun _ => thrifty_readEnd.bind fun _ => thrifty_pure _

/-- However a block ends, no more items were begun than there are bytes. -/
theorem items_read_le (height : Nat) (raw : Bytes) :
    (Block.read height raw).items ≤ raw.length := by
  have := (thrifty_read height raw).1
  omega

end Block

end LightServer.Wire
