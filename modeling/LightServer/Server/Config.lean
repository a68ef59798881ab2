import LightServer.Ingest.Config
import LightServer.Node.Config
import LightServer.Retrieval.Error
import LightServer.Server.Arguments

/-!
# Settings of the server

The settings of the server are those of its parts. What the command line says about the
node counts more than what the settings file of the node says. The parts are validated
in a fixed order, and the first fault counts.
-/

namespace LightServer.Server

structure Config where
  telemetry : Telemetry.Config
  node : Node.Config
  cache : Cache.Config
  ingest : Ingest.Config
  retrieval : Retrieval.Config
  gateway : Gateway.Config
  startHeight : Option Nat
  deriving DecidableEq, Repr

inductive ConfigError where
  | node (e : Node.Error)
  | cache (text : String)
  | ingest (e : Ingest.Error)
  | retrieval (e : Retrieval.Error)
  | gateway (e : Gateway.SetupError)
  deriving DecidableEq, Repr

def ConfigError.message : ConfigError → String
  | node e => e.message
  | cache text => "invalid cache configuration: " ++ text
  | ingest e => e.message
  | retrieval e => e.message
  | gateway e => e.message

namespace Config

def default : Config where
  telemetry := .default
  node := .default
  cache := .default
  ingest := .default
  retrieval := .default
  gateway := .default
  startHeight := none

def validate (c : Config) : Except ConfigError Unit := do
  c.node.validate.mapError .node
  c.cache.validate.mapError .cache
  c.ingest.validate.mapError .ingest
  c.retrieval.validate.mapError .retrieval
  c.gateway.validate.mapError .gateway

def nodeOfFile (readFile : String → Except String String) (path : String) :
    Except ConfigError Node.Config :=
  match readFile path with
  | .ok text => .ok (.ofText text)
  | .error e => .error (.node (.config (path ++ ": " ++ e)))

def nodeOfArguments (readFile : String → Except String String) (a : Arguments) :
    Except ConfigError Node.Config := do
  let node ← a.nodeFile.elim (.ok .default) (nodeOfFile readFile)
  return { node with
    url := a.nodeUrl.getD node.url
    user := a.nodeUser.or node.user
    password := a.nodePassword.or node.password }

def ofParts (node : Node.Config) (a : Arguments) : Config :=
  { default with
    telemetry := { Telemetry.Config.default with
      logLevel := a.logLevel
      jsonLogs := a.jsonLogs
      logFile := a.logFile }
    node := node
    cache := ⟨a.cacheSize⟩
    ingest := { Ingest.Config.default with pollInterval := .ofSeconds a.pollSeconds }
    gateway := { Gateway.Config.default with
      host := a.bindAddress.ip
      port := a.bindAddress.port
      vendor := a.vendor
      paramsBaseUrl := a.paramsUrl }
    startHeight := a.startHeight }

def ofArguments (readFile : String → Except String String) (a : Arguments) :
    Except ConfigError Config := do
  let c := ofParts (← nodeOfArguments readFile a) a
  c.validate
  return c

end Config

end LightServer.Server
