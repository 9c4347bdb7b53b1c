import ComIpc.Semantics.Machine
import ComIpc.Semantics.Refinement
import ComIpc.Semantics.LatestValue
import ComIpc.Semantics.Monitor
import ComIpc.Semantics.Until
import ComIpc.Semantics.RobustMutex
import ComIpc.Semantics.CString
import ComIpc.Semantics.SharedObjects
import ComIpc.Semantics.FirstCreator
import ComIpc.Semantics.Leases
import ComIpc.Semantics.Picking
import ComIpc.Types
import ComIpc.SystemManager.Lock
import ComIpc.SystemManager.Registry
import ComIpc.SystemManager.History
import ComIpc.SystemManager.Isolation
import ComIpc.SystemManager.Stability
import ComIpc.SystemManager.Services
import ComIpc.SystemManager.Steps
import ComIpc.SystemManager.Alone
import ComIpc.SystemManager.Lookups
import ComIpc.SystemManager.Moves
import ComIpc.SystemManager.Exclusion
import ComIpc.SystemManager.Handles
import ComIpc.SystemManager.Exits
import ComIpc.SystemManager.Nodes
import ComIpc.SystemManager.NodePids
import ComIpc.SystemManager.NodeSlots
import ComIpc.SystemManager.Listing
import ComIpc.SystemManager.TopicNames
import ComIpc.SystemManager.Entries
import ComIpc.SystemManager.Startup
import ComIpc.Topic.Shm
import ComIpc.Topic.Machine
import ComIpc.Topic.Change
import ComIpc.Topic.Delivery
import ComIpc.Topic.Crash
import ComIpc.Topic.Recovery
import ComIpc.Topic.Freshness
import ComIpc.Topic.Backlog
import ComIpc.Topic.Wakeups
import ComIpc.Topic.Refines
import ComIpc.Topic.Async
import ComIpc.Topic.Joining
import ComIpc.Topic.Interpreter
import ComIpc.Service.Machine
import ComIpc.Service.Tenure
import ComIpc.Service.Once
import ComIpc.Service.Flags
import ComIpc.Service.Slot
import ComIpc.Service.Wakeups
import ComIpc.Service.Completion
import ComIpc.Service.Change
import ComIpc.Service.Attribution
import ComIpc.Service.Recovery
import ComIpc.Recovery
import ComIpc.MemoryPool
import ComIpc.MemoryPool.Regions
import ComIpc.MemoryPool.Steps
import ComIpc.MemoryPool.Widths
import ComIpc.Bus.Machine
import ComIpc.Bus.Calls
import ComIpc.Bus.Topics
import ComIpc.Bus.Payload
import ComIpc.Bus.Sources
import ComIpc.Bus.Receipts
import ComIpc.Bus.Ranges
import ComIpc.Bus.Strings
import ComIpc.Bus.ZeroCopy
import ComIpc.Bus.Laps
import ComIpc.Bus.Intact
import ComIpc.Semantics.LittleEndian
import ComIpc.Semantics.OrderedMap
import ComIpc.Action.Messages
import ComIpc.Action.Server
import ComIpc.Action.Client
import ComIpc.Action.Machine
import ComIpc.Action.Step
import ComIpc.Action.Cancel
import ComIpc.Action.Goals
import ComIpc.Action.Origin
import ComIpc.Action.Trace
import ComIpc.Action.Numbering
import ComIpc.Action.Attribution
import ComIpc.Action.Pace
import ComIpc.Action.ExactlyOnce
import ComIpc.Action.Arrival
import ComIpc.Action.Reports
import ComIpc.Action.Declared
import ComIpc.Action.Waiting
import ComIpc.Semantics.Streams
import ComIpc.Tools.Loan
import ComIpc.Tools.Bag
import ComIpc.Tools.Router
import ComIpc.Tools.Truncated
import ComIpc.Tools.Recorder
import ComIpc.Tools.Handshake
import ComIpc.Semantics.Transfers
import ComIpc.Tools.Sockets
import ComIpc.Semantics.Frames
import ComIpc.Tools.Export
import ComIpc.Semantics.Scanners
import ComIpc.Tools.MessagePack
import ComIpc.Tools.Metadata
import ComIpc.Semantics.Filtering
import ComIpc.Semantics.BumpRing
import ComIpc.Semantics.Laps
import ComIpc.Udp.Header
import ComIpc.Udp.Node
import ComIpc.Udp.Channel
import ComIpc.Udp.InOrder
import ComIpc.Udp.Control
import ComIpc.Udp.Senders
import ComIpc.Udp.Sessions
import ComIpc.Udp.Fresh
import ComIpc.Udp.Deadline
import ComIpc.Udp.Strays
import ComIpc.Udp.Kinds
