import LightServer.Json.Basic

/-!
# Settings of logging
-/

namespace LightServer.Telemetry

/-- The settings of logging: the name of the service, the filter, whether the log is
written as JSON, and the file it is appended to. -/
structure Config where
  serviceName : String
  logLevel : String
  jsonLogs : Bool
  logFile : Option String
  deriving DecidableEq, Repr

namespace Config

def default : Config := ⟨"lightwalletd", "info", false, none⟩

def toJson (c : Config) : Json :=
  Json.ofMembers [("service_name", .string c.serviceName), ("log_level", .string c.logLevel),
    ("json_logs", .bool c.jsonLogs), ("log_file", .orNull .string c.logFile)]

end Config

end LightServer.Telemetry
