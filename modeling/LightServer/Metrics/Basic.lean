import LightServer.Metrics.Counter
import LightServer.Number.Shortest
import LightServer.Text.Integer

/-!
# What the server counts

The server counts the blocks it has taken and given out, its requests and errors, and
shows the last cached height as a binary number. The text that it shows lists the
families by name. A family with labels appears when it has a count, one without labels
always does. Of the durations of requests only their number is kept.
-/

namespace LightServer

structure Metrics where
  blocksIngested : Nat := 0
  reorgsDetected : Nat := 0
  fetchFailures : Nat := 0
  cachedTip : Binary64 := Binary64.zero
  blocksServed : Metrics.Counts := []
  rangeStreams : Metrics.Counts := []
  requests : Metrics.Counts := []
  requestDurations : Metrics.Counts := []
  transactionsSent : Metrics.Counts := []
  paramsDownloads : Metrics.Counts := []
  subsystemErrors : Metrics.Counts := []
  deriving Inhabited

namespace Metrics

inductive Event where
  | blockIngested (height : Nat)
  | reorgDetected
  | fetchFailed
  | blockServed (source : String)
  | rangeEnded (outcome : String)
  | requested (method outcome : String)
  | requestTimed (method : String)
  | transactionSent (result : String)
  | paramsDownloaded (file : String)
  | subsystemError (subsystem errorType : String)
  deriving DecidableEq, Repr

def record (m : Metrics) : Event → Metrics
  | .blockIngested height =>
      { m with
        blocksIngested := m.blocksIngested + 1
        cachedTip := (Binary64.ofNat? height).getD Binary64.zero }
  | .reorgDetected => { m with reorgsDetected := m.reorgsDetected + 1 }
  | .fetchFailed => { m with fetchFailures := m.fetchFailures + 1 }
  | .blockServed source => { m with blocksServed := m.blocksServed.increment [source] }
  | .rangeEnded outcome => { m with rangeStreams := m.rangeStreams.increment [outcome] }
  | .requested method outcome => { m with requests := m.requests.increment [method, outcome] }
  | .requestTimed method => { m with requestDurations := m.requestDurations.increment [method] }
  | .transactionSent result => { m with transactionsSent := m.transactionsSent.increment [result] }
  | .paramsDownloaded file => { m with paramsDownloads := m.paramsDownloads.increment [file] }
  | .subsystemError subsystem errorType =>
      { m with subsystemErrors := m.subsystemErrors.increment [errorType, subsystem] }

/-- A family as it is shown: its name, what it means, its kind, and its values. -/
structure Family where
  name : String
  help : String
  kind : String
  lines : List String

def line (name : String) (labels : List (String × String)) (value : String) : String :=
  let inner := ",".intercalate (labels.map fun l => l.1 ++ "=\"" ++ l.2 ++ "\"")
  let braced := if labels.isEmpty then "" else "\x7b" ++ inner ++ "\x7d"
  name ++ braced ++ " " ++ value

def single (name help kind value : String) : Family := ⟨name, help, kind, [line name [] value]⟩

def labelled (name help : String) (labels : List String) (cs : Counts) : Family :=
  ⟨name, help, "counter",
    cs.sorted.map fun c => line name (labels.zip c.1) (Text.decimal c.2)⟩

/-- A family of durations, of which the number is shown. -/
def timed (name help : String) (labels : List String) (cs : Counts) : Family :=
  ⟨name, help, "histogram",
    cs.sorted.map fun c => line (name ++ "_count") (labels.zip c.1) (Text.decimal c.2)⟩

def families (m : Metrics) : List Family := [
  single "lwd_cache_tip_height" "Height of the newest cached block" "gauge"
    (Shortest.positional m.cachedTip),
  labelled "lwd_gateway_params_downloads_total" "Proving parameter downloads" ["param"]
    m.paramsDownloads,
  timed "lwd_gateway_request_duration_seconds" "Time spent handling wallet requests" ["method"]
    m.requestDurations,
  labelled "lwd_gateway_requests_total" "Wallet API requests" ["method", "outcome"] m.requests,
  labelled "lwd_gateway_transactions_sent_total" "Transactions relayed to the node" ["result"]
    m.transactionsSent,
  single "lwd_ingestor_blocks_ingested_total" "Total number of blocks added to the cache"
    "counter" (Text.decimal m.blocksIngested),
  single "lwd_ingestor_fetch_failures_total" "Total number of failed block fetches" "counter"
    (Text.decimal m.fetchFailures),
  single "lwd_ingestor_reorgs_detected_total" "Total number of reorgs detected" "counter"
    (Text.decimal m.reorgsDetected),
  labelled "lwd_retrieval_blocks_served_total" "Blocks returned to callers" ["source"]
    m.blocksServed,
  labelled "lwd_retrieval_range_streams_total" "Block range streams" ["outcome"] m.rangeStreams,
  labelled "lwd_subsystem_errors_total" "Errors by subsystem and type"
    ["error_type", "subsystem"] m.subsystemErrors]

def Family.text (f : Family) : List String :=
  if f.lines.isEmpty then []
  else
    ["# HELP " ++ f.name ++ " " ++ f.help, "# TYPE " ++ f.name ++ " " ++ f.kind] ++ f.lines

def exposition (m : Metrics) : List String := m.families.flatMap Family.text

end Metrics

end LightServer
