import LightServer.Bytes.Basic
import LightServer.Text.Integer

/-!
# Text as bytes

`utf8` writes a text as its UTF-8 bytes. `Utf8.decode` reads such bytes back; it
reports the index of the first byte that cannot be part of a character, and how
many bytes from there on could still have begun one, or that the bytes end in
the middle of a character.
-/

namespace LightServer

def utf8Chars (s : List Char) : Bytes := s.flatMap String.utf8EncodeChar

def utf8 (s : String) : Bytes := utf8Chars s.toList

inductive Utf8Fault where
  | invalid (size index : Nat)
  | incomplete (index : Nat)
  deriving DecidableEq, Repr

def Utf8Fault.message : Utf8Fault → String
  | invalid size index =>
      "invalid utf-8 sequence of " ++ Text.decimal size ++ " bytes from index " ++
        Text.decimal index
  | incomplete index => "incomplete utf-8 byte sequence from index " ++ Text.decimal index

namespace Utf8

def isContinuation (b : UInt8) : Bool := 0x80 ≤ b && b ≤ 0xBF

/-- The byte may follow the first byte `a` of a character of three bytes. -/
def fitsThree (a b : UInt8) : Bool :=
  if a = 0xE0 then 0xA0 ≤ b && b ≤ 0xBF
  else if a = 0xED then 0x80 ≤ b && b ≤ 0x9F
  else isContinuation b

def fitsFour (a b : UInt8) : Bool :=
  if a = 0xF0 then 0x90 ≤ b && b ≤ 0xBF
  else if a = 0xF4 then 0x80 ≤ b && b ≤ 0x8F
  else isContinuation b

def low (b : UInt8) : Nat := b.toNat % 64

def charOf (n : Nat) : Char := Char.ofNat n

/-- Reads characters from bytes of which the first one has index `i`. -/
def decodeFrom (i : Nat) : Bytes → Except Utf8Fault (List Char)
  | [] => .ok []
  | a :: s =>
      if a < 0x80 then
        (decodeFrom (i + 1) s).map (charOf a.toNat :: ·)
      else if 0xC2 ≤ a && a ≤ 0xDF then
        match s with
        | [] => .error (.incomplete i)
        | b :: s =>
            if !isContinuation b then .error (.invalid 1 i)
            else (decodeFrom (i + 2) s).map (charOf ((a.toNat % 32) * 64 + low b) :: ·)
      else if 0xE0 ≤ a && a ≤ 0xEF then
        match s with
        | [] => .error (.incomplete i)
        | [b] => if fitsThree a b then .error (.incomplete i) else .error (.invalid 1 i)
        | b :: c :: s =>
            if !fitsThree a b then .error (.invalid 1 i)
            else if !isContinuation c then .error (.invalid 2 i)
            else
              (decodeFrom (i + 3) s).map
                (charOf ((a.toNat % 16) * 4096 + low b * 64 + low c) :: ·)
      else if 0xF0 ≤ a && a ≤ 0xF4 then
        match s with
        | [] => .error (.incomplete i)
        | [b] => if fitsFour a b then .error (.incomplete i) else .error (.invalid 1 i)
        | [b, c] =>
            if !fitsFour a b then .error (.invalid 1 i)
            else if !isContinuation c then .error (.invalid 2 i)
            else .error (.incomplete i)
        | b :: c :: d :: s =>
            if !fitsFour a b then .error (.invalid 1 i)
            else if !isContinuation c then .error (.invalid 2 i)
            else if !isContinuation d then .error (.invalid 3 i)
            else
              (decodeFrom (i + 4) s).map
                (charOf ((a.toNat % 8) * 262144 + low b * 4096 + low c * 64 + low d) :: ·)
      else .error (.invalid 1 i)

def decode (s : Bytes) : Except Utf8Fault String := (decodeFrom 0 s).map String.ofList

end Utf8

end LightServer
