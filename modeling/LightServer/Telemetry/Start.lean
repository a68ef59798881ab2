import LightServer.Telemetry.Config
import LightServer.Telemetry.Filter

/-!
# Starting the log

The log is started once. Its filter is looked at first, then its file is opened.
-/

namespace LightServer.Telemetry

inductive Error where
  | filter
  | config (text : String)
  | logging (text : String)
  deriving DecidableEq, Repr

def Error.message : Error → String
  | filter => "log level"
  | config text => "bad telemetry config: " ++ text
  | logging text => "logging setup failed: " ++ text

def alreadyStarted : Error := .logging "a global default trace dispatcher has already been set"

/-- Starts the log, where it may have been started before. Opening a file tells what is
wrong with it. -/
def start (openFault? : String → Option String) (started : Bool) (c : Config) :
    Except Error Unit :=
  if !isFilter c.logLevel then .error .filter
  else
    match c.logFile.bind fun path => (openFault? path).map fun e => path ++ ": " ++ e with
    | some text => .error (.config text)
    | none => if started then .error alreadyStarted else .ok ()

end LightServer.Telemetry
