import LightServer.Bytes.Basic

/-!
# Base64 text

Three bytes are written as four characters of the standard alphabet. One or two
bytes that remain at the end are filled up with zero bits, and the missing
characters are written as `=`.
-/

namespace LightServer.Base64

def alphabet : List Char :=
  "ABCDEFGHIJKLMNOPQRSTUVWXYZabcdefghijklmnopqrstuvwxyz0123456789+/".toList

def symbol (n : Nat) : Char := alphabet.getD (n % 64) '='

def symbols : Bytes → List Char
  | [] => []
  | [a] => [symbol (a.toNat / 4), symbol (a.toNat * 16), '=', '=']
  | [a, b] =>
      [symbol (a.toNat / 4), symbol (a.toNat * 16 + b.toNat / 16), symbol (b.toNat * 4), '=']
  | a :: b :: c :: s =>
      symbol (a.toNat / 4) :: symbol (a.toNat * 16 + b.toNat / 16) ::
        symbol (b.toNat * 4 + c.toNat / 64) :: symbol c.toNat :: symbols s

def encode (s : Bytes) : String := String.ofList (symbols s)

end LightServer.Base64
