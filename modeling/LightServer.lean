import LightServer.Backend.Basic
import LightServer.Backend.Ingest
import LightServer.Backend.Retrieval
import LightServer.Bytes.Base64
import LightServer.Bytes.Basic
import LightServer.Bytes.Hex
import LightServer.Bytes.Octets
import LightServer.Bytes.Sha256
import LightServer.Bytes.Utf8
import LightServer.Cache.Basic
import LightServer.Cache.Codec
import LightServer.Cache.Config
import LightServer.Cache.Window
import LightServer.Chain.Block
import LightServer.Chain.Encoding
import LightServer.CommandLine.Parameter
import LightServer.CommandLine.Scan
import LightServer.Gateway.Address
import LightServer.Gateway.Config
import LightServer.Gateway.Cors
import LightServer.Gateway.Envelope
import LightServer.Gateway.Error
import LightServer.Gateway.Method
import LightServer.Gateway.Routes
import LightServer.Gateway.Service
import LightServer.Gateway.Setup
import LightServer.Gateway.Stream
import LightServer.Gateway.Types
import LightServer.Gateway.Unary
import LightServer.Http.Message
import LightServer.Http.Status
import LightServer.Http.Target
import LightServer.Ingest.Config
import LightServer.Ingest.Loop
import LightServer.Ingest.Round
import LightServer.Ingest.State
import LightServer.Json.Basic
import LightServer.Json.Decode
import LightServer.Json.Number
import LightServer.Json.Parser
import LightServer.Json.Printer
import LightServer.Json.Skip
import LightServer.Json.Text
import LightServer.Main
import LightServer.Metrics.Basic
import LightServer.Metrics.Counter
import LightServer.Net.Address
import LightServer.Net.Domain
import LightServer.Net.Punycode
import LightServer.Net.Url
import LightServer.Node.Answer
import LightServer.Node.Config
import LightServer.Node.Error
import LightServer.Node.Exchange
import LightServer.Node.Failure
import LightServer.Node.Query
import LightServer.Number.Binary64
import LightServer.Number.Shortest
import LightServer.Proofs.Bytes.HexText
import LightServer.Proofs.Cache.Effect
import LightServer.Proofs.Cache.Feeding
import LightServer.Proofs.Cache.Heights
import LightServer.Proofs.Cache.Holding
import LightServer.Proofs.Cache.Offer
import LightServer.Proofs.Cache.Reoffering
import LightServer.Proofs.Cache.Run
import LightServer.Proofs.Cache.View
import LightServer.Proofs.Chain.Linked
import LightServer.Proofs.Chain.PrefixCode
import LightServer.Proofs.Chain.StoredForm
import LightServer.Proofs.Gateway.AddressCheck
import LightServer.Proofs.Gateway.AddressTransactions
import LightServer.Proofs.Gateway.Batch
import LightServer.Proofs.Gateway.Lines
import LightServer.Proofs.Gateway.OneBlock
import LightServer.Proofs.Gateway.Opening
import LightServer.Proofs.Gateway.Records
import LightServer.Proofs.Gateway.Requests
import LightServer.Proofs.Gateway.Sending
import LightServer.Proofs.Gateway.UnspentOutputs
import LightServer.Proofs.Gateway.WalletBlocks
import LightServer.Proofs.Ingest.CachedTip
import LightServer.Proofs.Ingest.Ceiling
import LightServer.Proofs.Ingest.Convergence
import LightServer.Proofs.Ingest.FailureBudget
import LightServer.Proofs.Ingest.Intake
import LightServer.Proofs.Ingest.Ledger
import LightServer.Proofs.Ingest.Pace
import LightServer.Proofs.Ingest.SoleWriter
import LightServer.Proofs.Ingest.Source
import LightServer.Proofs.Ingest.StartHeight
import LightServer.Proofs.Ingest.Storm
import LightServer.Proofs.Ingest.Turns
import LightServer.Proofs.Ingest.Visits
import LightServer.Proofs.Json.Exact
import LightServer.Proofs.Json.Extent
import LightServer.Proofs.Json.Fields
import LightServer.Proofs.Json.Local
import LightServer.Proofs.Json.Members
import LightServer.Proofs.Json.Numbers
import LightServer.Proofs.Json.Rereading
import LightServer.Proofs.Json.Scanning
import LightServer.Proofs.Json.Strings
import LightServer.Proofs.Json.Typed
import LightServer.Proofs.Node.Answers
import LightServer.Proofs.Node.Envelopes
import LightServer.Proofs.Node.FailureText
import LightServer.Proofs.Node.NotYetMined
import LightServer.Proofs.Node.Recording
import LightServer.Proofs.Node.SettingsFile
import LightServer.Proofs.Node.TransactionRecords
import LightServer.Proofs.Node.Unsuccessful
import LightServer.Proofs.Node.UtxoRecords
import LightServer.Proofs.Number.Whole
import LightServer.Proofs.Outcome
import LightServer.Proofs.Retrieval.Backpressure
import LightServer.Proofs.Retrieval.Client
import LightServer.Proofs.Retrieval.Course
import LightServer.Proofs.Retrieval.Delivery
import LightServer.Proofs.Retrieval.Forecast
import LightServer.Proofs.Retrieval.LoneHeight
import LightServer.Proofs.Retrieval.Order
import LightServer.Proofs.Retrieval.SingleReads
import LightServer.Proofs.Retrieval.Stream
import LightServer.Proofs.Retrieval.TipPolicy
import LightServer.Proofs.Retrieval.Traffic
import LightServer.Proofs.Text.Literal
import LightServer.Proofs.Text.Trimming
import LightServer.Proofs.Wire.Acceptance
import LightServer.Proofs.Wire.BlockWalk
import LightServer.Proofs.Wire.CommittedHeight
import LightServer.Proofs.Wire.CompactSize
import LightServer.Proofs.Wire.Grammar
import LightServer.Proofs.Wire.Reading
import LightServer.Proofs.Wire.SampleBlocks
import LightServer.Proofs.Wire.Thrift
import LightServer.Proofs.Wire.Truncation
import LightServer.Proofs.Wire.Walk
import LightServer.Retrieval.Error
import LightServer.Retrieval.Range
import LightServer.Retrieval.Read
import LightServer.Sample.Chains
import LightServer.Sample.RawBlocks
import LightServer.Scenario.ForkingNode
import LightServer.Scenario.Host
import LightServer.Scenario.Reader
import LightServer.Scenario.Script
import LightServer.Scenario.Session
import LightServer.Scenario.Timeline
import LightServer.Server.Arguments
import LightServer.Server.Assembly
import LightServer.Server.Config
import LightServer.Server.StartHeight
import LightServer.Telemetry.Config
import LightServer.Telemetry.Filter
import LightServer.Telemetry.Pattern
import LightServer.Telemetry.Pattern.Basic
import LightServer.Telemetry.Pattern.Class
import LightServer.Telemetry.Start
import LightServer.Text.Alphanumeric
import LightServer.Text.Blank
import LightServer.Text.Digits
import LightServer.Text.Integer
import LightServer.Text.Printable
import LightServer.Text.Quoted
import LightServer.Time.Duration
import LightServer.Wire.Block
import LightServer.Wire.Error
import LightServer.Wire.Reader
import LightServer.Wire.Transaction
