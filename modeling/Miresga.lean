import Miresga.Lib.Mem
import Miresga.Lib.Format
import Miresga.Lib.OnesComplement
import Miresga.Lib.Record
import Miresga.Lib.Local
import Miresga.Lib.Run
import Miresga.Lib.Crc
import Miresga.Lib.Store
import Miresga.Lib.Product
import Miresga.Lib.Capped
import Miresga.Lib.Writer
import Miresga.Wire
import Miresga.Backend.Agent
import Miresga.Backend.Spec
import Miresga.Backend.Translation
import Miresga.Backend.Teardown
import Miresga.Backend.OwnConnections
import Miresga.Backend.Keyed
import Miresga.Backend.Capacity
import Miresga.Backend.Sack
import Miresga.Backend.Checksum
import Miresga.Backend.Footprint
import Miresga.Frontend.Data
import Miresga.Frontend.Builders
import Miresga.Frontend.BuilderSpec
import Miresga.Frontend.Addressing
import Miresga.Frontend.Process
import Miresga.Frontend.Transition
import Miresga.Frontend.Run
import Miresga.Frontend.Records
import Miresga.Frontend.Plan
import Miresga.Frontend.Url
import Miresga.Frontend.Ownership
import Miresga.Frontend.Shutdown
import Miresga.Frontend.Burst
import Miresga.Frontend.SendArray
import Miresga.Frontend.Residue
import Miresga.Frontend.Connection
import Miresga.Frontend.Offload
import Miresga.Frontend.Routing
import Miresga.Frontend.Refinement
import Miresga.Frontend.Isolation
import Miresga.Frontend.Onward
import Miresga.Frontend.Binding
import Miresga.Frontend.Waiting
import Miresga.Frontend.EntryController
import Miresga.Frontend.MessageBytes
import Miresga.Frontend.EntryArrays
import Miresga.Frontend.Dispatch
import Miresga.Switch.Controller
import Miresga.Switch.Headers
import Miresga.Switch.Pipeline
import Miresga.Switch.Spec
import Miresga.Switch.Parsing
import Miresga.Switch.Affinity
import Miresga.Switch.Relay
import Miresga.Switch.Bypass
import Miresga.Switch.SynReply
import Miresga.Switch.ArpReply
import Miresga.System.FastPath
import Miresga.System.Framing
import Miresga.System.Decoding
import Miresga.System.Handles
import Miresga.System.Agreement
import Miresga.System.Bypass
import Miresga.System.Fleet
import Miresga.System.Onward
import Miresga.System.Splice
import Miresga.System.Handshake
import Miresga.System.Startup
import Miresga.System.Addresses
import Miresga.System.Configuration
import Miresga.System.Crc
import Miresga.System.Sender
import Miresga.System.Servers
