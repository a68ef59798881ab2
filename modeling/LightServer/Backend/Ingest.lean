import LightServer.Backend.Basic
import LightServer.Ingest.Loop

/-!
# Taking in blocks

The ingestor fetches from the node of a backend, adds to its cache and counts in its
metrics. It is told to stop from elsewhere.
-/

namespace LightServer.Backend

variable {ν : Type}

def addBlock (height : Nat) (b : CompactBlock) (s : Backend ν) :
    Except CacheError AddOutcome × Backend ν :=
  let (outcome, cache) := s.cache.add height b
  (outcome, { s with cache })

def countIngest : Ingest.Event → Backend ν → Backend ν
  | .stored height, s => s.record (.blockIngested height)
  | .reorgDetected, s => s.record .reorgDetected
  | .fetchFailed, s => (s.record .fetchFailed).record (.subsystemError "ingestor" "fetch")
  | .encodingFailed, s => s.record (.subsystemError "ingestor" "encoding")

end LightServer.Backend
