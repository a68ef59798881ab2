import LightServer.Bytes.Octets
import LightServer.Bytes.Utf8
import LightServer.Text.Quoted
import LightServer.Text.Integer

/-!
# Hexadecimal text

A byte is written as two hexadecimal digits in lower case, and read from digits
of either case. A text that is no hexadecimal is refused for its odd number of
bytes first, and otherwise for the first byte that is no digit. Hashes are shown
with their bytes in reverse order.
-/

namespace LightServer

inductive HexFault where
  | oddLength
  | invalidDigit (byte : UInt8) (position : Nat)
  deriving DecidableEq, Repr

/-- The fault in words; a byte is named by the character of the same number. -/
def HexFault.message : HexFault → String
  | oddLength => "Odd number of digits"
  | invalidDigit b i =>
      "Invalid character " ++ Text.quoteChar (Char.ofNat b.toNat) ++ " at position " ++
        Text.decimal i

namespace Hex

def digit (n : Nat) : Char := Nat.digitChar (n % 16)

def ofByte (b : UInt8) : List Char := [digit (b.toNat / 16), digit b.toNat]

def digits (s : Bytes) : List Char := s.flatMap ofByte

def encode (s : Bytes) : String := String.ofList (digits s)

def value? (b : UInt8) : Option Nat :=
  if 48 ≤ b.toNat ∧ b.toNat ≤ 57 then some (b.toNat - 48)
  else if 97 ≤ b.toNat ∧ b.toNat ≤ 102 then some (b.toNat - 87)
  else if 65 ≤ b.toNat ∧ b.toNat ≤ 70 then some (b.toNat - 55)
  else none

/-- Reads pairs of digits, of which the first one stands at position `i`. -/
def decodePairs (i : Nat) : Bytes → Except HexFault Bytes
  | a :: b :: s =>
      match value? a, value? b with
      | none, _ => .error (.invalidDigit a i)
      | some _, none => .error (.invalidDigit b (i + 1))
      | some x, some y => (decodePairs (i + 2) s).map (UInt8.ofNat (16 * x + y) :: ·)
  | _ => .ok []

def decodeBytes (s : Bytes) : Except HexFault Bytes :=
  if s.length % 2 = 1 then .error .oddLength else decodePairs 0 s

def decode (s : String) : Except HexFault Bytes := decodeBytes (utf8 s)

/-- A digit is one byte, which has the value of the digit. -/
theorem exists_utf8_digit (n : Nat) :
    ∃ a, String.utf8EncodeChar (digit n) = [a] ∧ value? a = some (n % 16) := by
  have hdigits : ∀ d : Fin 16,
      (String.utf8EncodeChar (Nat.digitChar d)).map value? = [some d.val] := by decide
  exact List.map_eq_singleton_iff.mp (hdigits ⟨n % 16, Nat.mod_lt n (by decide)⟩)

/-- A byte is written as two bytes that have the values of its halves. -/
theorem exists_utf8_ofByte (b : UInt8) :
    ∃ x y, utf8Chars (ofByte b) = [x, y] ∧ value? x = some (b.toNat / 16) ∧
      value? y = some (b.toNat % 16) := by
  have hb := b.toNat_lt
  obtain ⟨x, hx, hhigh⟩ := exists_utf8_digit (b.toNat / 16)
  obtain ⟨y, hy, hlow⟩ := exists_utf8_digit b.toNat
  rw [Nat.mod_eq_of_lt (by omega)] at hhigh
  refine ⟨x, y, ?_, hhigh, hlow⟩
  rw [utf8Chars, ofByte, List.flatMap_cons, List.flatMap_singleton, hx, hy]
  rfl

theorem utf8_encode_cons (b : UInt8) (s : Bytes) :
    utf8 (encode (b :: s)) = utf8Chars (ofByte b) ++ utf8 (encode s) := by
  simp only [utf8, encode, digits, utf8Chars, String.toList_ofList, List.flatMap_cons,
    List.flatMap_append]

theorem length_utf8_encode (s : Bytes) : (utf8 (encode s)).length = 2 * s.length := by
  induction s with
  | nil => rfl
  | cons b s ih =>
      obtain ⟨x, y, hb, -, -⟩ := exists_utf8_ofByte b
      rw [utf8_encode_cons, hb, List.length_append, ih, List.length_cons]
      simp only [List.length_cons, List.length_nil]
      omega

theorem decodePairs_encode (i : Nat) (s : Bytes) :
    decodePairs i (utf8 (encode s)) = .ok s := by
  induction s generalizing i with
  | nil => rfl
  | cons b s ih =>
      obtain ⟨x, y, hb, hx, hy⟩ := exists_utf8_ofByte b
      have hbyte : UInt8.ofNat (16 * (b.toNat / 16) + b.toNat % 16) = b := by
        rw [Nat.div_add_mod, UInt8.ofNat_toNat]
      rw [utf8_encode_cons, hb]
      simp only [List.cons_append, List.nil_append, decodePairs, hx, hy, ih, hbyte]
      rfl

/-- What was written as hexadecimal text is read back. -/
theorem decode_encode (s : Bytes) : decode (encode s) = .ok s := by
  unfold decode decodeBytes
  rw [length_utf8_encode, if_neg (by omega), decodePairs_encode]

end Hex

inductive HashFault where
  | invalid (fault : HexFault)
  | wrongLength (expected got : Nat)
  deriving DecidableEq, Repr

def HashFault.message : HashFault → String
  | invalid fault => "invalid hex: " ++ fault.message
  | wrongLength expected got =>
      "expected " ++ Text.decimal expected ++ " bytes, got " ++ Text.decimal got

namespace Octets

def hex {n : Nat} (x : Octets n) : String := Hex.encode x.bytes

/-- The bytes in reverse order as hexadecimal text. -/
def display {n : Nat} (x : Octets n) : String := x.reverse.hex

def ofDisplay (n : Nat) (s : String) : Except HashFault (Octets n) :=
  match Hex.decode s with
  | .error fault => .error (.invalid fault)
  | .ok b =>
      match ofBytes? n b with
      | some x => .ok x.reverse
      | none => .error (.wrongLength n b.length)

end Octets

end LightServer
