import LightServer.Bytes.Hex

/-!
# Targets of requests

A target is a path, after which there may be a query. Before the path there may be a
scheme and an authority, and after them the path may be missing, which is the same as a
slash. In a path a byte may be written as a percent sign and two hexadecimal digits. A
percent sign without them stands for itself.
-/

namespace LightServer.Http

def inScheme (c : Char) : Bool := c.isAlphanum || c = '+' || c = '-' || c = '.'

def afterScheme? (s : List Char) : Option (List Char) :=
  match s.dropWhile inScheme with
  | ':' :: '/' :: '/' :: s => some s
  | _ => none

def beforeQuery (s : List Char) : List Char := s.takeWhile fun c => c ≠ '?' && c ≠ '#'

def path (target : String) : List Char :=
  match afterScheme? target.toList with
  | none => beforeQuery target.toList
  | some s =>
      match (beforeQuery s).dropWhile (· ≠ '/') with
      | [] => ['/']
      | p => p

def escaped? (a b : UInt8) : Option UInt8 := do
  return UInt8.ofNat (16 * (← Hex.value? a) + (← Hex.value? b))

def percentDecode : Bytes → Bytes
  | [] => []
  | c :: a :: b :: s =>
      match if c = 0x25 then escaped? a b else none with
      | some x => x :: percentDecode s
      | none => c :: percentDecode (a :: b :: s)
  | c :: s => c :: percentDecode s

end LightServer.Http
