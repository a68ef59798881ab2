import LightServer.Backend.Ingest
import LightServer.Gateway.Service
import LightServer.Server.Config
import LightServer.Server.StartHeight

/-!
# The assembled server

The server is put together over one node and one cache. It asks the node about its chain
first, which decides where to start. While it runs, the ingestor and the gateway work
side by side, and an ingestor that fails stops the server.
-/

namespace LightServer.Server

inductive BuildError where
  | connection (e : Node.Error)
  | chain (e : Node.Error)
  | ingest (e : Ingest.Error)
  | retrieval (e : Retrieval.Error)
  | gateway (e : Gateway.SetupError)
  deriving DecidableEq, Repr

def BuildError.message : BuildError → String
  | connection e => "creating node RPC transport: " ++ e.message
  | chain e => "querying getblockchaininfo: " ++ e.message
  | ingest e => e.message
  | retrieval e => e.message
  | gateway e => e.message

inductive RunError where
  | ingest (e : Ingest.Error)
  deriving DecidableEq, Repr

def RunError.message : RunError → String
  | ingest e => "chain ingestor stopped: " ++ e.message

structure Assembly (ν : Type) where
  setup : Gateway.Setup ν
  ingestConfig : Ingest.Config
  ingestState : Ingest.State
  backend : Backend ν
  chain : Node.ChainInfo

def newBackend {ν : Type} (c : Config) (w : ν) : Backend ν where
  world := w
  cache := .empty .standard c.cache.maxEntries
  metrics := {}
  now := 0

def assemble {ν : Type} (p : NodeAccess ν) (c : Config) (w : ν) :
    Except BuildError (Assembly ν) := do
  c.node.validate.mapError .connection
  let (info, b) := (newBackend c w).ask p .chainInfo
  let info ← info.mapError .chain
  c.ingest.validate.mapError .ingest
  c.retrieval.validate.mapError .retrieval
  c.gateway.validate.mapError .gateway
  return {
    setup := ⟨p, c.gateway, c.retrieval⟩
    ingestConfig := c.ingest
    ingestState := .start (startHeight c.startHeight info.saplingActivation)
    backend := b
    chain := info }

namespace Assembly

variable {ν : Type}

/-- The world of an ingestor that works until the node has no more blocks. -/
structure CatchUp (ν : Type) where
  backend : Backend ν
  caughtUp : Bool

def isNone : FetchReply → Bool
  | .ok none => true
  | _ => false

def catchUpEnvironment (p : NodeAccess ν) : Ingest.Environment (CatchUp ν) where
  stopped _ := false
  fetch height w :=
    let (reply, b) := w.backend.fetch p height
    (reply, ⟨b, w.caughtUp || isNone reply⟩)
  add height block w :=
    let (outcome, b) := w.backend.addBlock height block
    (outcome, { w with backend := b })
  count e w := { w with backend := w.backend.countIngest e }

def catchUpWait (c : Ingest.Config) (w : CatchUp ν) : Bool × CatchUp ν :=
  (!w.caughtUp, { w with
    backend := w.backend.waitUntil (w.backend.now + c.pollInterval.ceilMillis) })

/-- Does rounds of the ingestor until the node has no more blocks, with bounds on the
rounds and on the turns of a round. -/
def catchUp (rounds turns : Nat) (a : Assembly ν) :
    Option (Except RunError Unit × Assembly ν) := do
  let (result, w) ← Ingest.run a.ingestConfig (catchUpEnvironment a.setup.node)
    (catchUpWait a.ingestConfig) turns rounds a.ingestState ⟨a.backend, false⟩
  return (result.mapError .ingest, { a with backend := w.backend })

def answer (rs : List Http.Request) (a : Assembly ν) : List Http.Response × Assembly ν :=
  let (xs, b) := Gateway.respondAll a.setup rs a.backend
  (xs, { a with backend := b })

end Assembly

end LightServer.Server
