import LightServer.Bytes.Octets
import LightServer.Wire.Error

/-!
# Reading serialized data

A reader takes a value from the front of a byte string. Its reading holds the
value or the fault, the bytes that are left, and the number of list items that
were begun on the way. Counts and lengths are compact sizes, which have one, three,
five or nine bytes, and of which only the shortest form is accepted. A count is
refused as soon as the bytes that are left cannot hold so many items.
-/

namespace LightServer.Wire

structure Reading (α : Type) where
  outcome : Except ParseError α
  rest : Bytes
  items : Nat

def Reader (α : Type) := Bytes → Reading α

namespace Reader

def andThen {α β : Type} (r : Reader α) (f : α → Reader β) : Reader β := fun s =>
  match r s with
  | ⟨.ok x, rest, items⟩ =>
      let next := f x rest
      ⟨next.outcome, next.rest, items + next.items⟩
  | ⟨.error e, rest, items⟩ => ⟨.error e, rest, items⟩

instance : Monad Reader where
  pure x := fun s => ⟨.ok x, s, 0⟩
  bind := andThen

def refuse {α : Type} (e : ParseError) : Reader α := fun s => ⟨.error e, s, 0⟩

def take (n : Nat) (field : String) : Reader (Octets n) := fun s =>
  match Octets.take? n s with
  | some (x, rest) => ⟨.ok x, rest, 0⟩
  | none => ⟨.error (.unexpectedEnd field n s.length), s, 0⟩

def number (n : Nat) (field : String) : Reader Nat := do
  return (← take n field).toNat

def atLeast (low value : Nat) : Reader Nat :=
  if value < low then refuse .nonCanonicalSize else pure value

def compactSize (field : String) : Reader Nat := do
  match ← number 1 field with
  | 0xFD => atLeast 0xFD (← number 2 field)
  | 0xFE => atLeast 0x10000 (← number 4 field)
  | 0xFF => atLeast 0x100000000 (← number 8 field)
  | small => pure small

/-- Reads a count of items that have at least `size` bytes each, one at least. -/
def count (field : String) (size : Nat) : Reader Nat := do
  let n ← compactSize field
  let needed := n * max size 1
  fun s =>
    if Bytes.reaches needed s then ⟨.ok n, s, 0⟩
    else ⟨.error (.unexpectedEnd field (min needed Text.maxWord64) s.length), s, 0⟩

def varBytes (field : String) : Reader Bytes := do
  let n ← count field 1
  return (← take n field).bytes

def beginItem : Reader Unit := fun s => ⟨.ok (), s, 1⟩

def item {α : Type} (r : Reader α) : Reader α := do
  beginItem
  r

def times {α : Type} (r : Reader α) : Nat → Reader (List α)
  | 0 => pure []
  | n + 1 => do
      let x ← item r
      let xs ← times r n
      return x :: xs

def list {α : Type} (field : String) (size : Nat) (r : Reader α) : Reader (List α) := do
  times r (← count field size)

end Reader

def compactSize (n : Nat) : Bytes :=
  if n < 0xFD then Bytes.leBytes 1 n
  else if n < 0x10000 then 0xFD :: Bytes.leBytes 2 n
  else if n < 0x100000000 then 0xFE :: Bytes.leBytes 4 n
  else 0xFF :: Bytes.leBytes 8 n

def varBytes (s : Bytes) : Bytes := compactSize s.length ++ s

def listBytes {α : Type} (w : α → Bytes) (xs : List α) : Bytes :=
  compactSize xs.length ++ xs.flatMap w

end LightServer.Wire
