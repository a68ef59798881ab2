import LightServer.Net.Punycode
import LightServer.Text.Alphanumeric
import LightServer.Text.Printable

/-!
# Names of hosts

A name of a host consists of labels between full stops. Its letters are brought to lower
case, wide forms to the usual ones, and what is not seen is left out. Characters beyond
the ASCII set have to be assigned and visible, and a mark needs a character to stand on.
A label that begins with `xn--` is the ASCII form of another one.
-/

namespace LightServer.Net.Domain

def isIgnored (c : Char) : Bool :=
  [0xAD, 0x34F, 0x200B, 0x2060, 0xFEFF].contains c.toNat ||
    (0x180B ≤ c.toNat && c.toNat ≤ 0x180F) || (0xFE00 ≤ c.toNat && c.toNat ≤ 0xFE0F)

def isFullStop (c : Char) : Bool := [0x2E, 0x3002, 0xFF0E, 0xFF61].contains c.toNat

/-- The usual form of a character in wide form, and every other character itself. -/
def narrow (c : Char) : Char :=
  if 0xFF01 ≤ c.toNat ∧ c.toNat ≤ 0xFF5E then Char.ofNat (c.toNat - 0xFEE0) else c

def normalize (s : List Char) : List Char :=
  (s.filter fun c => !isIgnored c).map fun c => if isFullStop c then '.' else (narrow c).toLower

def reserved : List Char :=
  [' ', '#', '%', '/', ':', '<', '>', '?', '@', '[', '\\', ']', '^', '|']

def isMark (c : Char) : Bool := 0x300 ≤ c.toNat && c.toNat ≤ 0x36F

def beginsLabel (c : Char) : Bool :=
  if c.toNat < 0x80 then 0x20 ≤ c.toNat && c.toNat < 0x7F && !reserved.contains c
  else !isMark c && (Text.isPrintable c || Text.isAlphanumeric c) && c.toNat != 0xFFFD

def areLabel : List Char → Bool
  | [] => true
  | c :: s => beginsLabel c && s.all fun d => beginsLabel d || isMark d

def isLabel (s : List Char) : Bool :=
  match s with
  | 'x' :: 'n' :: '-' :: '-' :: s =>
      match Punycode.decode s with
      | some t => t.any (0x80 ≤ ·.toNat) && areLabel t
      | none => false
  | s => areLabel s

def ofText? (s : List Char) : Option (List Char) :=
  let name := normalize s
  if !name.isEmpty && ((String.ofList name).splitOn ".").all (isLabel ·.toList) then some name
  else none

end LightServer.Net.Domain
