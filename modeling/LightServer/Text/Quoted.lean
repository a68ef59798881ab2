import LightServer.Text.Printable

/-!
# Quoted text

Quoted text shows a string between double quotes, or one character between
single quotes, in such a way that it can be read on a terminal: the quote in use
and the backslash are escaped, five control characters have short names, and
every other character that is not printable is written by its number in
hexadecimal.
-/

namespace LightServer.Text

def hexDigits (n : Nat) : List Char := Nat.toDigits 16 n

def escapeQuoted (quote c : Char) : List Char :=
  if c = '\\' || c = quote then ['\\', c]
  else if c = '\t' then ['\\', 't']
  else if c = '\r' then ['\\', 'r']
  else if c = '\n' then ['\\', 'n']
  else if c.toNat = 0 then ['\\', '0']
  else if isPrintable c then [c]
  else ['\\', 'u', '\x7b'] ++ hexDigits c.toNat ++ ['\x7d']

def quoteWith (quote : Char) (s : List Char) : String :=
  String.ofList (quote :: s.flatMap (escapeQuoted quote) ++ [quote])

def quoteString (s : String) : String := quoteWith '"' s.toList

def quoteChar (c : Char) : String := quoteWith (Char.ofNat 39) [c]

end LightServer.Text
