import LightServer.Gateway.Types
import LightServer.Json.Printer
import LightServer.Server.Config

/-!
# The command

The command reads its arguments and the variables that stand in for them, and the settings
file of the node if one is named. It shows the settings that they make, or says what is
wrong with them.
-/

namespace LightServer.Server

def usageText : CommandLine.Fault → String
  | .help => "lightwalletd [--NAME VALUE]...\n" ++
      String.join (parameters.map fun p => "  --" ++ p.name ++ " (" ++ p.environmentName ++ ")\n")
  | .version => "lightwalletd " ++ Gateway.version ++ "\n"
  | .unknownArgument => "error: unexpected argument\n"
  | .invalidValue => "error: a value is missing or not allowed\n"
  | .valueValidation => "error: invalid value\n"
  | .conflict => "error: an argument is given more than once\n"
  | .tooManyValues => "error: unexpected value\n"

def exitCode : CommandLine.Fault → UInt32
  | .help | .version => 0
  | _ => 2

def Config.summary (c : Config) : Json :=
  Json.ofMembers [("telemetry", c.telemetry.toJson), ("node", c.node.toJson),
    ("cache", c.cache.toJson), ("ingestor", c.ingest.toJson),
    ("retrieval", c.retrieval.toJson), ("gateway", c.gateway.toJson),
    ("start_height", .orNull .nat c.startHeight)]

def readFault : IO.Error → String
  | .noFileOrDirectory _ _ _ => "No such file or directory (os error 2)"
  | e => toString e

def readText (path : String) : BaseIO (Except String String) := do
  match ← (IO.FS.readFile path).toBaseIO with
  | .ok text => return .ok text
  | .error e => return .error (readFault e)

def readEnvironment : BaseIO (List (String × String)) := do
  let found ← parameters.mapM fun p => do
    return (← IO.getEnv p.environmentName).map fun v => (p.environmentName, v)
  return found.filterMap id

def readNodeFile (a : Arguments) : BaseIO (Except String String) :=
  match a.nodeFile with
  | none => return .ok ""
  | some path => readText path

end LightServer.Server

open LightServer LightServer.Server

def main (args : List String) : IO UInt32 := do
  let environment ← readEnvironment
  match Arguments.read (environment.lookup ·) args with
  | .error e =>
      IO.eprint (usageText e)
      return exitCode e
  | .ok a =>
      let file ← readNodeFile a
      match Config.ofArguments (fun _ => file) a with
      | .error e =>
          IO.eprintln ("Error: " ++ e.message)
          return 1
      | .ok c =>
          IO.println c.summary.compact
          return 0
