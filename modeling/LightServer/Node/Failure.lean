import LightServer.Text.Blank
import LightServer.Text.Integer
import LightServer.Text.Quoted

/-!
# Failures that the node reports

The node reports an error as a code and a message. In text the two are joined by a
colon, and such text is read back with blanks around both parts dropped. Text
without a readable code is a failure with the catch-all code.
-/

namespace LightServer.Node

structure Failure where
  code : Int
  message : String
  deriving DecidableEq, Repr

inductive FailureFault where
  | noCode (text : String)
  | badCode (code : String) (fault : Text.IntegerFault)
  deriving DecidableEq, Repr

def FailureFault.message : FailureFault → String
  | noCode text => "rpc error without code: " ++ text
  | badCode code fault =>
      "rpc error code " ++ Text.quoteString code ++ ": " ++ fault.message

def splitOnce (c : Char) : List Char → Option (List Char × List Char)
  | [] => none
  | d :: s =>
      if d = c then some ([], s) else (splitOnce c s).map fun (l, r) => (d :: l, r)

namespace Failure

def miscellaneous : Int := -1

def invalidAddressOrKey : Int := -5

/-- The code for a parameter that is out of range, such as a height above the tip. -/
def invalidParameter : Int := -8

def display (f : Failure) : String := Text.decimalInt f.code ++ ": " ++ f.message

def parse (raw : String) : Except FailureFault Failure :=
  match splitOnce ':' raw.toList with
  | none => .error (.noCode raw)
  | some (code, message) =>
      match Text.readInt Text.maxInt64 (Text.trimBlanks code) with
      | .error fault => .error (.badCode (String.ofList code) fault)
      | .ok n => .ok ⟨n, String.ofList (Text.trimBlanks message)⟩

/-- Reads a failure from text, taking text without a code as a message. -/
def ofText (raw : String) : Failure :=
  match parse raw with
  | .ok f => f
  | .error _ => ⟨miscellaneous, Text.trimmed raw⟩

def NotYetAvailable (f : Failure) : Prop := f.code = invalidParameter

def NotFound (f : Failure) : Prop := f.code = invalidAddressOrKey

instance (f : Failure) : Decidable f.NotYetAvailable :=
  inferInstanceAs (Decidable (f.code = invalidParameter))

instance (f : Failure) : Decidable f.NotFound :=
  inferInstanceAs (Decidable (f.code = invalidAddressOrKey))

end Failure

end LightServer.Node
