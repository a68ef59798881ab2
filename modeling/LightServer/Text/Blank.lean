/-!
# Blank characters and trimming

The blank characters are those with the Unicode property White_Space.
`trimBlanks` removes them from both ends of a text and leaves the inside alone,
so a trimmed text is one that neither begins nor ends with a blank, and
trimming again changes nothing.
-/

namespace LightServer.Text

/-- The character has the Unicode property White_Space. -/
def isBlank (c : Char) : Bool :=
  let n := c.toNat
  (9 ≤ n && n ≤ 13) || n == 0x20 || n == 0x85 || n == 0xA0 || n == 0x1680 ||
    (0x2000 ≤ n && n ≤ 0x200A) || n == 0x2028 || n == 0x2029 || n == 0x202F ||
    n == 0x205F || n == 0x3000

def trimBlanksEnd (s : List Char) : List Char :=
  (s.reverse.dropWhile isBlank).reverse

def trimBlanks (s : List Char) : List Char :=
  trimBlanksEnd (s.dropWhile isBlank)

def trimmed (s : String) : String :=
  String.ofList (trimBlanks s.toList)

end LightServer.Text
