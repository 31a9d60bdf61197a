import Chatd.Collections.Ringbuffer
import Chatd.Collections.Ringbuffer.Atomicity
import Chatd.Collections.Ringbuffer.Growth
import Chatd.Collections.Ringbuffer.Iteration
import Chatd.Collections.Ringbuffer.Refinement
import Chatd.Collections.Ringbuffer.Shrink
import Chatd.Collections.Ringbuffer.Shrunk
import Chatd.Collections.Vec
import Chatd.Collections.Vec.Concat
import Chatd.Collections.Vec.Refinement
import Chatd.Collections.Vec.Shrink
import Chatd.Collections.Wrappers
import Chatd.Library.Alone
import Chatd.Library.Block
import Chatd.Library.CString
import Chatd.Library.Delimited
import Chatd.Library.Grouped
import Chatd.Library.LockMachine
import Chatd.Library.Logged
import Chatd.Library.Reach
import Chatd.Library.Resources
import Chatd.Library.SharedPtr
import Chatd.Net.Connection.ClientLines
import Chatd.Net.Connection.Exclusion
import Chatd.Net.Connection.Flush
import Chatd.Net.Connection.Login
import Chatd.Net.Connection.Login.Authentication
import Chatd.Net.Connection.Login.Bounds
import Chatd.Net.Connection.Login.Buffers
import Chatd.Net.Connection.Login.Conversation
import Chatd.Net.Connection.Login.Prompts
import Chatd.Net.Connection.Login.Registry
import Chatd.Net.Connection.Login.Sessions
import Chatd.Net.Connection.Login.Steps
import Chatd.Net.Connection.Login.Username
import Chatd.Net.Connection.Peer
import Chatd.Net.Connection.RxThread
import Chatd.Net.Connection.Teardown
import Chatd.Net.Connection.TxQueue
import Chatd.Net.Connection.TxThread
import Chatd.Net.Connection.Wakeup
import Chatd.Net.Connection.Wire
import Chatd.Net.Server.Broadcast
import Chatd.Net.Server.Collectable
import Chatd.Net.Server.Confidentiality
import Chatd.Net.Server.ConnectionPool
import Chatd.Net.Server.Deletion
import Chatd.Net.Server.GarbageCollector
import Chatd.Net.Server.Ledger
import Chatd.Net.Server.Lifecycle
import Chatd.Net.Server.Logins
import Chatd.Net.Server.Logout
import Chatd.Net.Server.Membership
import Chatd.Net.Server.MessageLifetime
import Chatd.Net.Server.Passes
import Chatd.Net.Server.PoolSteps
import Chatd.Net.Server.Process
import Chatd.Net.Server.Registry
import Chatd.Net.Server.Requests
import Chatd.Net.Server.Routing
import Chatd.Net.Server.RxOwners
import Chatd.Net.Server.Shutdown
import Chatd.Net.Server.Sweep
import Chatd.Net.Server.World
import Chatd.Net.Tcp.Memory
import Chatd.Net.Tcp.Slots
import Chatd.Net.Tcp.Sockets
import Chatd.Net.Tcp.Stream
import Chatd.Protocol.Alike
import Chatd.Protocol.CommandGrammar
import Chatd.Protocol.Delete
import Chatd.Protocol.Dispatch
import Chatd.Protocol.Execute
import Chatd.Protocol.Frames
import Chatd.Protocol.Handlers
import Chatd.Protocol.Handlers.Delivery
import Chatd.Protocol.Handlers.LastLock
import Chatd.Protocol.Handlers.Lines
import Chatd.Protocol.Handlers.LockOrder
import Chatd.Protocol.Handlers.Orphans
import Chatd.Protocol.Handlers.Races
import Chatd.Protocol.Handlers.Sequential
import Chatd.Protocol.Handlers.Snapshot
import Chatd.Protocol.Handlers.Topics
import Chatd.Protocol.Listing
import Chatd.Protocol.MessageGrammar
import Chatd.Protocol.Ownership
import Chatd.Protocol.Payload
import Chatd.Protocol.Subscriptions
