import WsRelay.Bytes
import WsRelay.Bytes.Search
import WsRelay.Config.CommandLine
import WsRelay.Config.Settings
import WsRelay.Connection.Basic
import WsRelay.Connection.Client
import WsRelay.Connection.Peer
import WsRelay.Connection.Socket
import WsRelay.Digest
import WsRelay.Error
import WsRelay.Frame.Codec
import WsRelay.Frame.Header
import WsRelay.Frame.Opcode
import WsRelay.Framing.Basic
import WsRelay.Framing.Counted
import WsRelay.Framing.Delimited
import WsRelay.Framing.Json
import WsRelay.Framing.Passthrough
import WsRelay.Framing.RecordLayout
import WsRelay.Framing.Table
import WsRelay.Gateway
import WsRelay.Gateway.Delivery
import WsRelay.Handshake
import WsRelay.Loop
import WsRelay.Main
import WsRelay.Peer.Backend
import WsRelay.Peer.Endpoint
import WsRelay.Peer.Route
import WsRelay.Peer.Transport
import WsRelay.Proofs.Arrivals
import WsRelay.Proofs.Client.Admission
import WsRelay.Proofs.Client.Chunking
import WsRelay.Proofs.Client.Intake
import WsRelay.Proofs.Client.Interpreter
import WsRelay.Proofs.Client.Limits
import WsRelay.Proofs.Client.Lines
import WsRelay.Proofs.Client.Negotiation
import WsRelay.Proofs.Client.Relaying
import WsRelay.Proofs.Config.Entries
import WsRelay.Proofs.Config.Files
import WsRelay.Proofs.Config.Lines
import WsRelay.Proofs.Config.Overrides
import WsRelay.Proofs.Connection.Bare
import WsRelay.Proofs.Connection.Coherence
import WsRelay.Proofs.Connection.ControlFrames
import WsRelay.Proofs.Connection.Datagrams
import WsRelay.Proofs.Connection.Directions
import WsRelay.Proofs.Connection.Farewell
import WsRelay.Proofs.Connection.Granting
import WsRelay.Proofs.Connection.Limits
import WsRelay.Proofs.Connection.Moves
import WsRelay.Proofs.Connection.Operations
import WsRelay.Proofs.Connection.Output
import WsRelay.Proofs.Connection.Returning
import WsRelay.Proofs.Connection.Standing
import WsRelay.Proofs.Frame.ClosePayload
import WsRelay.Proofs.Frame.Encoding
import WsRelay.Proofs.Frame.Exactness
import WsRelay.Proofs.Frame.Prefix
import WsRelay.Proofs.Frame.RoundTrip
import WsRelay.Proofs.Framing.Bounds
import WsRelay.Proofs.Framing.Cuts
import WsRelay.Proofs.Framing.Cutter
import WsRelay.Proofs.Framing.Needles
import WsRelay.Proofs.Framing.Recall
import WsRelay.Proofs.Framing.RecordLength
import WsRelay.Proofs.Framing.Streams
import WsRelay.Proofs.Framing.Textual
import WsRelay.Proofs.Gateway.Incidents
import WsRelay.Proofs.Gateway.Isolation
import WsRelay.Proofs.Gateway.Lives
import WsRelay.Proofs.Gateway.Shutdown
import WsRelay.Proofs.Gateway.Upkeep
import WsRelay.Proofs.Gateway.Waits
import WsRelay.Proofs.Handshake.Answer
import WsRelay.Proofs.Handshake.Collected
import WsRelay.Proofs.Handshake.Fields
import WsRelay.Proofs.Handshake.Offers
import WsRelay.Proofs.Interpretation
import WsRelay.Proofs.Json.Completion
import WsRelay.Proofs.Json.Edges
import WsRelay.Proofs.Json.Exactness
import WsRelay.Proofs.Json.Grammar
import WsRelay.Proofs.Json.Growth
import WsRelay.Proofs.Json.Numbers
import WsRelay.Proofs.Json.Scan
import WsRelay.Proofs.Json.Stream
import WsRelay.Proofs.Json.Tokens
import WsRelay.Proofs.Occurrence
import WsRelay.Proofs.Peer.Addresses
import WsRelay.Proofs.Peer.Chunking
import WsRelay.Proofs.Peer.Conservation
import WsRelay.Proofs.Peer.Contract
import WsRelay.Proofs.Peer.Cutting
import WsRelay.Proofs.Peer.Datagrams
import WsRelay.Proofs.Peer.Hosts
import WsRelay.Proofs.Peer.Intake
import WsRelay.Proofs.Peer.JsonStream
import WsRelay.Proofs.Peer.Options
import WsRelay.Proofs.Peer.Ports
import WsRelay.Proofs.Peer.Protocols
import WsRelay.Proofs.Peer.Searching
import WsRelay.Proofs.Peer.TextStreams
import WsRelay.Proofs.Slots.Changes
import WsRelay.Proofs.Slots.Ledger
import WsRelay.Proofs.Slots.Reuse
import WsRelay.Proofs.Text.Ascii
import WsRelay.Proofs.Text.Blanks
import WsRelay.Proofs.Text.Boundaries
import WsRelay.Proofs.Text.Cuts
import WsRelay.Proofs.Text.Decoding
import WsRelay.Proofs.Text.Lines
import WsRelay.Proofs.Text.Numbers
import WsRelay.Proofs.Text.Pieces
import WsRelay.Proofs.Text.Radix
import WsRelay.Proofs.Text.Sequences
import WsRelay.Slots
import WsRelay.Startup
import WsRelay.Termination
import WsRelay.Text.Cut
import WsRelay.Text.Digits
import WsRelay.Text.Quoted
import WsRelay.Text.Utf8
