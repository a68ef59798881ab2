import LightServer.Json.Text
import LightServer.Number.Shortest
import LightServer.Text.Integer

/-!
# Writing JSON

The compact form has no blanks. It is a single line, since a string writes its
line breaks as escapes.
-/

namespace LightServer.Json

mutual

def write : Json → List Char
  | null => ['n', 'u', 'l', 'l']
  | bool true => ['t', 'r', 'u', 'e']
  | bool false => ['f', 'a', 'l', 's', 'e']
  | integer n => (Text.decimalInt n).toList
  | float x => (Shortest.json x).toList
  | string s => writeString s
  | array xs => '[' :: writeItems true xs ++ [']']
  | object ms => '\x7b' :: writeMembers true ms ++ ['\x7d']

def writeItems (first : Bool) : List Json → List Char
  | [] => []
  | x :: xs => (if first then [] else [',']) ++ write x ++ writeItems false xs

def writeMembers (first : Bool) : List (String × Json) → List Char
  | [] => []
  | (k, v) :: ms =>
      (if first then [] else [',']) ++ writeString k ++ ':' :: write v ++ writeMembers false ms

end

def compact (j : Json) : String := String.ofList (write j)

end LightServer.Json
