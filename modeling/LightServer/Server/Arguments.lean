import LightServer.Cache.Config
import LightServer.CommandLine.Scan
import LightServer.Gateway.Config
import LightServer.Net.Address
import LightServer.Telemetry.Config

/-!
# The command line of the server

The server has a parameter for each of its settings, and a variable for each parameter.
-/

namespace LightServer.Server

open LightServer.CommandLine

def word64? (s : String) : Option Nat := (Text.readNat Text.maxWord64 s.toList).toOption

def parameters : List Parameter := [
  ⟨"bind-addr", "LWD_BIND_ADDR", true, Parameter.needsReading Net.SocketAddress.parse⟩,
  ⟨"zcash-conf", "LWD_ZCASH_CONF", true, Parameter.needsText⟩,
  ⟨"rpc-url", "LWD_RPC_URL", true, fun _ => none⟩,
  ⟨"rpc-user", "LWD_RPC_USER", true, fun _ => none⟩,
  ⟨"rpc-password", "LWD_RPC_PASSWORD", true, fun _ => none⟩,
  ⟨"cache-size", "LWD_CACHE_SIZE", true, Parameter.needsReading word64?⟩,
  ⟨"start-height", "LWD_START_HEIGHT", true, Parameter.needsReading word64?⟩,
  ⟨"poll-interval-secs", "LWD_POLL_INTERVAL", true, Parameter.needsReading word64?⟩,
  ⟨"vendor", "LWD_VENDOR", true, fun _ => none⟩,
  ⟨"params-url", "LWD_PARAMS_URL", true, fun _ => none⟩,
  ⟨"log-level", "LWD_LOG_LEVEL", true, fun _ => none⟩,
  ⟨"log-file", "LWD_LOG_FILE", true, Parameter.needsText⟩,
  ⟨"json-logs", "LWD_JSON_LOGS", false, Parameter.needsTruth⟩]

structure Arguments where
  bindAddress : Net.SocketAddress
  nodeFile : Option String
  nodeUrl : Option String
  nodeUser : Option String
  nodePassword : Option String
  cacheSize : Nat
  startHeight : Option Nat
  pollSeconds : Nat
  vendor : String
  paramsUrl : String
  logLevel : String
  logFile : Option String
  jsonLogs : Bool
  deriving DecidableEq, Repr

namespace Arguments

def defaultAddress : Net.SocketAddress :=
  .ofParts Gateway.Config.default.host Gateway.Config.default.port

def defaultPollSeconds : Nat := 15

def ofValues (vs : Values) : Arguments where
  bindAddress := ((vs.get? "bind-addr").bind Net.SocketAddress.parse).getD defaultAddress
  nodeFile := vs.get? "zcash-conf"
  nodeUrl := vs.get? "rpc-url"
  nodeUser := vs.get? "rpc-user"
  nodePassword := vs.get? "rpc-password"
  cacheSize := ((vs.get? "cache-size").bind word64?).getD Cache.Config.default.maxEntries
  startHeight := (vs.get? "start-height").bind word64?
  pollSeconds := ((vs.get? "poll-interval-secs").bind word64?).getD defaultPollSeconds
  vendor := (vs.get? "vendor").getD Gateway.Config.default.vendor
  paramsUrl := (vs.get? "params-url").getD Gateway.Config.default.paramsBaseUrl
  logLevel := (vs.get? "log-level").getD Telemetry.Config.default.logLevel
  logFile := vs.get? "log-file"
  jsonLogs := vs.get? "json-logs" == some Parameter.switchedOn

def read (environment : String → Option String) (args : List String) :
    Except Fault Arguments :=
  (readValues parameters environment args).map ofValues

end Arguments

end LightServer.Server
