import LightServer.Cache.Basic
import LightServer.Node.Error
import LightServer.Time.Duration

/-!
# Settings and errors of block retrieval
-/

namespace LightServer.Retrieval

inductive Error where
  | notReady
  | newerThanTip (height tip : Nat)
  | notFound (height : Nat)
  | cache (error : CacheError)
  | source (height : Nat) (error : Node.SourceError)
  | deadlineExceeded (height : Nat)
  | config (text : String)
  deriving DecidableEq, Repr

def Error.message : Error → String
  | notReady => "server not ready: no blocks cached yet"
  | newerThanTip height tip =>
      "unavailable: requested block " ++ Text.decimal height ++ " newer than tip " ++
        Text.decimal tip
  | notFound height => "block " ++ Text.decimal height ++ " not found on node"
  | cache error => error.message
  | source height error =>
      "fetching block " ++ Text.decimal height ++ " failed: " ++ error.message
  | deadlineExceeded height => "deadline exceeded at block " ++ Text.decimal height
  | config text => "invalid retrieval configuration: " ++ text

/-- The settings of block retrieval: the deadline of a range that names none, and how
many blocks of a range wait for their reader. -/
structure Config where
  rangeDeadline : Duration
  channelCapacity : Nat
  deriving DecidableEq, Repr

namespace Config

def default : Config := ⟨.ofSeconds 30, 16⟩

def forTesting : Config := ⟨.ofSeconds 5, 1⟩

def validate (c : Config) : Except Error Unit :=
  if c.channelCapacity = 0 then .error (.config "channel_capacity must be > 0")
  else if c.rangeDeadline.IsZero then .error (.config "range_deadline must be > 0")
  else .ok ()

def toJson (c : Config) : Json :=
  Json.ofMembers [("range_deadline", c.rangeDeadline.toJson),
    ("channel_capacity", .nat c.channelCapacity)]

end Config

end LightServer.Retrieval
