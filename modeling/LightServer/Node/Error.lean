import LightServer.Node.Failure
import LightServer.Wire.Error
import LightServer.Chain.Block

/-!
# What can go wrong at the node

A call to the node fails on the way, by a failure that the node reports, or because
its answer cannot be used. A request for a block at a height fails in the same ways,
except that settings which cannot be used count as a failure on the way.
-/

namespace LightServer.Node

inductive Error where
  | transport (text : String)
  | failure (f : Failure)
  | decode (text : String)
  | parse (height : Nat) (error : Wire.ParseError)
  | config (text : String)
  deriving DecidableEq, Repr

namespace Error

def message : Error → String
  | transport text => "node transport error: " ++ text
  | failure f => "node error " ++ f.display
  | decode text => "malformed node response: " ++ text
  | parse height error =>
      "block " ++ Text.decimal height ++ " failed to parse: " ++ error.message
  | config text => "invalid node configuration: " ++ text

def NotYetAvailable : Error → Prop
  | failure f => f.NotYetAvailable
  | _ => False

instance (e : Error) : Decidable e.NotYetAvailable := by
  cases e <;> unfold NotYetAvailable <;> infer_instance

end Error

inductive SourceError where
  | transport (text : String)
  | failure (code : Int) (message : String)
  | decode (text : String)
  | parse (height : Nat) (reason : String)
  deriving DecidableEq, Repr

namespace SourceError

def message : SourceError → String
  | transport text => "node transport error: " ++ text
  | failure code message => "node rpc error " ++ Text.decimalInt code ++ ": " ++ message
  | decode text => "malformed node response: " ++ text
  | parse height reason => "block " ++ Text.decimal height ++ " failed to parse: " ++ reason

def ofError : Error → SourceError
  | .transport text => transport text
  | .config text => transport text
  | .failure f => failure f.code f.message
  | .decode text => decode text
  | .parse height error => parse height error.message

end SourceError

end LightServer.Node
