import LightServer.Json.Parser

/-!
# Passing over JSON

A value that is not wanted is passed over without being built. Its form is checked as
far as the end of the value depends on it: brackets have to match and numbers and
escapes have to be well formed, but they may denote anything, and nothing limits how
deep the value nests. The bound on the steps is the same as in reading.
-/

namespace LightServer.Json

mutual

def skipValue : Nat → List Char → Option (List Char)
  | 0, _ => none
  | fuel + 1, s =>
      match skipBlanks s with
      | [] => none
      | '"' :: s => skipString s
      | 'n' :: 'u' :: 'l' :: 'l' :: s => some s
      | 't' :: 'r' :: 'u' :: 'e' :: s => some s
      | 'f' :: 'a' :: 'l' :: 's' :: 'e' :: s => some s
      | '[' :: s =>
          match skipBlanks s with
          | ']' :: s => some s
          | s => skipItems fuel s
      | '\x7b' :: s =>
          match skipBlanks s with
          | '\x7d' :: s => some s
          | s => skipMembers fuel s
      | s => (scanNumber s).map Prod.snd

def skipItems : Nat → List Char → Option (List Char)
  | 0, _ => none
  | fuel + 1, s =>
      match (skipValue fuel s).map skipBlanks with
      | some (']' :: s) => some s
      | some (',' :: s) => skipItems fuel s
      | _ => none

def skipMembers : Nat → List Char → Option (List Char)
  | 0, _ => none
  | fuel + 1, s =>
      match skipBlanks s with
      | '"' :: s =>
          match (skipString s).map skipBlanks with
          | some (':' :: s) =>
              match (skipValue fuel s).map skipBlanks with
              | some ('\x7d' :: s) => some s
              | some (',' :: s) => skipMembers fuel s
              | _ => none
          | _ => none
      | _ => none

end

end LightServer.Json
