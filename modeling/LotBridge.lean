import LotBridge.Json.Value
import LotBridge.Json.Writer
import LotBridge.Json.Reader
import LotBridge.Json.Decode
import LotBridge.Decimal.Shortest
import LotBridge.Text.Blank
import LotBridge.Text.Unsigned
import LotBridge.Line
import LotBridge.Register
import LotBridge.Failure
import LotBridge.Retry.Policy
import LotBridge.Retry.Backoff
import LotBridge.Retry.Config
import LotBridge.Phase
import LotBridge.Status
import LotBridge.Lot
import LotBridge.Listeners
import LotBridge.Listeners.Process
import LotBridge.Repository
import LotBridge.Registry
import LotBridge.Endpoint
import LotBridge.Line.Record
import LotBridge.Text.Utf8
import LotBridge.Wire.Request
import LotBridge.Wire.Envelope
import LotBridge.Wire.Response
import LotBridge.Wire.Framing
import LotBridge.Toml.Value
import LotBridge.Toml.Tree
import LotBridge.Toml.Reader
import LotBridge.Toml.Document
import LotBridge.Toml.Report
import LotBridge.Toml.Writer
import LotBridge.Toml.Node
import LotBridge.Workdir
import LotBridge.Config.Section
import LotBridge.Config.Security
import LotBridge.Config.Connection
import LotBridge.Config.Bridge
import LotBridge.Bridge
import LotBridge.Cli.Parse
import LotBridge.Cli.Refusal
import LotBridge.Cli.Similar
import LotBridge.Cli.Spec
import LotBridge.Cli.Value
import LotBridge.CompletionLog
import LotBridge.Controller
import LotBridge.Controller.Command
import LotBridge.Dispatcher
import LotBridge.Gateway
import LotBridge.Gateway.Memory
import LotBridge.Gateway.Network
import LotBridge.Gateway.Scripted
import LotBridge.Gateway.Tcp
import LotBridge.Logging
import LotBridge.Main
import LotBridge.Operator
import LotBridge.Registry.Command
import LotBridge.Session
import LotBridge.Simulator
import LotBridge.Simulator.Command
import LotBridge.Simulator.Serve
import LotBridge.Proofs.RegistryHistory
import LotBridge.Proofs.GatewayLog
import LotBridge.Proofs.CallPhases
import LotBridge.Proofs.LaneRuns
import LotBridge.Proofs.CallStatus
import LotBridge.Proofs.GatewayFrames
import LotBridge.Proofs.LaneLiveness
import LotBridge.Proofs.DispatchWrites
import LotBridge.Proofs.MemoryRegisters
import LotBridge.Proofs.BridgeDelivery
import LotBridge.Proofs.NamespaceAgreement
import LotBridge.Proofs.BoundedRetry
import LotBridge.Proofs.GatewaySessions
import LotBridge.Proofs.JsonReadBack
import LotBridge.Proofs.RecordDecoding
import LotBridge.Proofs.LineFraming
import LotBridge.Proofs.WireRoundTrip
import LotBridge.Proofs.TrackerWords
import LotBridge.Proofs.ChunkedLines
import LotBridge.Proofs.BackoffDelays
import LotBridge.Proofs.BackoffTotal
import LotBridge.Proofs.TomlStrings
import LotBridge.Proofs.TomlScalars
import LotBridge.Proofs.TomlFloats
import LotBridge.Proofs.TomlDatetimes
import LotBridge.Proofs.TomlTables
import LotBridge.Proofs.TomlDocuments
import LotBridge.Proofs.TomlNodes
import LotBridge.Proofs.ConfigPrinting
import LotBridge.Proofs.ConfigReload
import LotBridge.Proofs.UnsignedNumerals
import LotBridge.Proofs.StatusReplay
import LotBridge.Proofs.RawAddresses
import LotBridge.Proofs.EndpointReadBack
import LotBridge.Proofs.ScopedSessions
import LotBridge.Proofs.SessionAccounting
import LotBridge.Proofs.ListenerRegistration
import LotBridge.Proofs.JsonMaps
import LotBridge.Proofs.StoredNumbers
import LotBridge.Proofs.LotRecordReadBack
import LotBridge.Proofs.TomlParsedValues
import LotBridge.Proofs.TomlInlineValues
import LotBridge.Proofs.TomlSections
import LotBridge.Proofs.TomlLayout
import LotBridge.Proofs.TomlDecoding
import LotBridge.Proofs.ConfigLayers
import LotBridge.Proofs.RegisterFiles
import LotBridge.Proofs.TcpAgreement
