import LightServer.Text.Integer

/-!
# Faults of serialized blocks
-/

namespace LightServer.Wire

inductive ParseError where
  | unexpectedEnd (field : String) (needed remaining : Nat)
  | trailingBytes (count : Nat)
  | unsupportedVersion (version : Nat)
  | nonCanonicalSize
  | missingCoinbase
  | heightMismatch (expected found : Nat)
  | invalidHex (reason : String)
  deriving DecidableEq, Repr

def ParseError.message : ParseError → String
  | unexpectedEnd field needed remaining =>
      "unexpected end of data reading " ++ field ++ ": need " ++ Text.decimal needed ++
        " bytes, " ++ Text.decimal remaining ++ " left"
  | trailingBytes count => Text.decimal count ++ " trailing bytes after block"
  | unsupportedVersion version => "unsupported transaction version " ++ Text.decimal version
  | nonCanonicalSize => "non-canonical compact size"
  | missingCoinbase => "block has no coinbase transaction"
  | heightMismatch expected found =>
      "coinbase commits to height " ++ Text.decimal found ++ ", expected " ++
        Text.decimal expected
  | invalidHex reason => "invalid hex: " ++ reason

end LightServer.Wire
