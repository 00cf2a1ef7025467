import WireProtocol.Main
import WireProtocol.Rpc.Server
import WireProtocol.Schema.Family
import WireProtocol.Files.Tree
import WireProtocol.Proofs.Wire.Lending
import WireProtocol.Proofs.Wire.Delimiting
import WireProtocol.Proofs.Wire.Steps
import WireProtocol.Proofs.Schema.Snapshot
import WireProtocol.Proofs.Schema.SnapshotForm
import WireProtocol.Proofs.Rpc.Frame
import WireProtocol.Proofs.Rpc.Envelope
import WireProtocol.Proofs.Rpc.Transparency
import WireProtocol.Proofs.Rpc.Recovery
import WireProtocol.Proofs.Rpc.Stream
import WireProtocol.Proofs.Rpc.Turns
import WireProtocol.Proofs.Schema.Items
import WireProtocol.Proofs.Schema.WellFormed
import WireProtocol.Proofs.Schema.Layout
import WireProtocol.Proofs.Schema.Spelling
import WireProtocol.Proofs.Schema.Validation
import WireProtocol.Proofs.Wire.Tables
import WireProtocol.Proofs.Schema.Tags
import WireProtocol.Proofs.Rpc.Routing
import WireProtocol.Proofs.Generation.Command
import WireProtocol.Proofs.Target.Identifiers
import WireProtocol.Proofs.Target.TypeNames
import WireProtocol.Proofs.Target.Functions
import WireProtocol.Proofs.Wire.Custody
import WireProtocol.Proofs.Rpc.Addresses
import WireProtocol.Proofs.Target.Indexes
import WireProtocol.Proofs.Target.Serializers
import WireProtocol.Proofs.Schema.LineEnds
import WireProtocol.Proofs.Wire.Bounds
import WireProtocol.Proofs.Wire.Contents
import WireProtocol.Proofs.Rpc.Framing
import WireProtocol.Proofs.Rpc.RoundTrip
import WireProtocol.Proofs.Wire.RecordObjects
import WireProtocol.Proofs.Wire.MaskSets
import WireProtocol.Proofs.Wire.Positions
import WireProtocol.Proofs.Wire.Clock
import WireProtocol.Proofs.SnakeCase
