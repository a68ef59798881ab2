import LightServer.Time.Duration

/-!
# Settings of the ingestor
-/

namespace LightServer.Ingest

inductive Error where
  | reorgTooDeep (rounds : Nat) (height : Nat)
  | config (text : String)
  deriving DecidableEq, Repr

def Error.message : Error → String
  | reorgTooDeep rounds height =>
      "reorg deeper than cache can repair: " ++ Text.decimal rounds ++
        " rewind rounds, last at height " ++ Text.decimal height
  | config text => "invalid ingestor configuration: " ++ text

/-- The settings of the ingestor: how long it waits between rounds, how many heights a
rewind goes back, how many rewinds in a row it tolerates, and how many failures end a
round. -/
structure Config where
  pollInterval : Duration
  rewindStep : Nat
  maxReorgRounds : Nat
  maxFailures : Nat
  deriving DecidableEq, Repr

namespace Config

def default : Config where
  pollInterval := .ofSeconds 15
  rewindStep := 10
  maxReorgRounds := 10
  maxFailures := 3

def forTesting : Config := { default with pollInterval := .ofMillis 10 }

def validate (c : Config) : Except Error Unit :=
  if c.pollInterval.IsZero then .error (.config "poll_interval must be > 0")
  else if c.rewindStep = 0 then .error (.config "rewind_step must be > 0")
  else if c.maxFailures = 0 then .error (.config "max_failures must be > 0")
  else .ok ()

def toJson (c : Config) : Json :=
  Json.ofMembers [("poll_interval", c.pollInterval.toJson), ("rewind_step", .nat c.rewindStep),
    ("max_reorg_rounds", .nat c.maxReorgRounds), ("max_failures", .nat c.maxFailures)]

end Config

end LightServer.Ingest
