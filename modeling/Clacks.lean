import Clacks.Common
import Clacks.Foundation.Program
import Clacks.Foundation.Memory
import Clacks.Foundation.Sockets
import Clacks.Foundation.Monitor
import Clacks.Foundation.Descriptors
import Clacks.Foundation.LockStep
import Clacks.Foundation.WireFormat
import Clacks.Foundation.Text
import Clacks.Foundation.FirstWins
import Clacks.Foundation.Slot
import Clacks.Foundation.Chain
import Clacks.Foundation.Bins
import Clacks.Uthash.Table
import Clacks.Uthash.KeyReads
import Clacks.Uthash.Integrity
import Clacks.Uthash.Expansion
import Clacks.Uthash.Runs
import Clacks.Identifier.Libuuid
import Clacks.Identifier.Generator
import Clacks.Identifier.TagManager
import Clacks.Identifier.TagHistory
import Clacks.Identifier.HashedTags
import Clacks.Identifier.DomSocket
import Clacks.Identifier.Accounting
import Clacks.Identifier.Lifetimes
import Clacks.Identifier.Dispatch
import Clacks.Identifier.Refills
import Clacks.Client.IdClient
import Clacks.Client.Interface
import Clacks.Client.Hygiene
import Clacks.Client.TagProtocol
import Clacks.Identifier.Exchange
import Clacks.Identifier.Tagging
import Clacks.Identifier.Network
import Clacks.Identifier.Interleavings
import Clacks.Identifier.ServiceOrder
import Clacks.Identifier.Completion
import Clacks.Identifier.Outcomes
import Clacks.Identifier.ServiceMemory
import Clacks.Discovery.Listener
import Clacks.Discovery.Deafness
import Clacks.Lifecycle.Startup
import Clacks.Lifecycle.Daemonize
import Clacks.Lifecycle.PidFile
import Clacks.Lifecycle.Instances
import Clacks.Lifecycle.Restart
import Clacks.Trace.Message
import Clacks.Trace.Storage
import Clacks.Trace.Recording
import Clacks.Trace.Transport
import Clacks.Trace.Delivery
import Clacks.Trace.LogFormat
import Clacks.Trace.Stages
import Clacks.Trace.Ordering
import Clacks.Trace.ReceiveLoop
import Clacks.Trace.Completion
import Clacks.Trace.ClientCalls
