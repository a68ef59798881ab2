import LightServer.Net.Address
import LightServer.Node.Config
import LightServer.Time.Duration

/-!
# Settings of the gateway
-/

namespace LightServer.Gateway

open LightServer.Json

structure CorsConfig where
  enabled : Bool
  allowedOrigins : List String
  maxAge : Nat
  deriving DecidableEq, Repr

namespace CorsConfig

/-- The settings where nothing is said: every origin is allowed. -/
def default : CorsConfig := ⟨true, ["*"], 3600⟩

def decoder : Decoder CorsConfig :=
  (CorsConfig.mk <$> Fields.withDefault "enabled" Decoder.bool default.enabled <*>
    Fields.withDefault "allowed_origins" (Decoder.list Decoder.string) default.allowedOrigins <*>
    Fields.withDefault "max_age" Decoder.word64 default.maxAge).record "CorsConfig"

def toJson (c : CorsConfig) : Json :=
  Json.ofMembers [("enabled", .bool c.enabled),
    ("allowed_origins", .listOf .string c.allowedOrigins), ("max_age", .nat c.maxAge)]

end CorsConfig

structure Config where
  host : Net.IpAddress
  port : Nat
  vendor : String
  paramsBaseUrl : String
  streamTimeout : Duration
  maxRequestSize : Nat
  maxBatchSize : Nat
  cors : CorsConfig
  deriving DecidableEq, Repr

namespace Config

def default : Config where
  host := .v4 [0, 0, 0, 0]
  port := 9067
  vendor := "lightwalletd"
  paramsBaseUrl := "https://z.cash/downloads"
  streamTimeout := .ofSeconds 30
  maxRequestSize := 4194304
  maxBatchSize := 100
  cors := .default

def forTesting : Config :=
  { default with host := .v4 [127, 0, 0, 1], port := 0, streamTimeout := .ofSeconds 5 }

def addressDecoder : Decoder Net.IpAddress
  | .string s =>
      match Net.IpAddress.parse s with
      | some a => .ok a
      | none => .error (.other "invalid IP address syntax")
  | v => .error (.invalidType v "IP address")

def decoder : Decoder Config :=
  (Config.mk <$> Fields.withDefault "host" addressDecoder default.host <*>
    Fields.withDefault "port" Decoder.word16 default.port <*>
    Fields.withDefault "vendor" Decoder.string default.vendor <*>
    Fields.withDefault "params_base_url" Decoder.string default.paramsBaseUrl <*>
    Fields.withDefault "stream_timeout" Duration.ofJson default.streamTimeout <*>
    Fields.withDefault "max_request_size" Decoder.size default.maxRequestSize <*>
    Fields.withDefault "max_batch_size" Decoder.size default.maxBatchSize <*>
    Fields.withDefault "cors" CorsConfig.decoder default.cors).record "GatewayConfig"

def toJson (c : Config) : Json :=
  Json.ofMembers [("host", .string c.host.display), ("port", .nat c.port),
    ("vendor", .string c.vendor), ("params_base_url", .string c.paramsBaseUrl),
    ("stream_timeout", c.streamTimeout.toJson), ("max_request_size", .nat c.maxRequestSize),
    ("max_batch_size", .nat c.maxBatchSize), ("cors", c.cors.toJson)]

def fault? (c : Config) : Option String :=
  if c.maxRequestSize = 0 then some "max_request_size cannot be 0"
  else if c.maxBatchSize = 0 then some "max_batch_size cannot be 0"
  else if c.streamTimeout.IsZero then some "stream_timeout cannot be 0"
  else if !Node.Config.isWebAddress c.paramsBaseUrl then
    some ("params_base_url must be an http(s) URL, got " ++ c.paramsBaseUrl)
  else none

def address (c : Config) : Net.SocketAddress := .ofParts c.host c.port

end Config

inductive SetupError where
  | config (text : String)
  | bind (text : String)
  deriving DecidableEq, Repr

def SetupError.message : SetupError → String
  | config text => "invalid gateway config: " ++ text
  | bind text => "cannot bind " ++ text

def Config.validate (c : Config) : Except SetupError Unit :=
  match c.fault? with
  | none => .ok ()
  | some text => .error (.config text)

end LightServer.Gateway
