import Dsm.Library.Machine
import Dsm.Library.Fairness
import Dsm.Library.FirstMatch
import Dsm.Library.Bytes
import Dsm.Library.Scan
import Dsm.Library.Upsert
import Dsm.Library.CondVar
import Dsm.Library.CriticalSection
import Dsm.Types
import Dsm.Network.NodeTable
import Dsm.Network.Discovery
import Dsm.Network.TableMessage
import Dsm.Network.TableBytes
import Dsm.Network.BuiltTables
import Dsm.Network.DiscoveryMessage
import Dsm.Network.Joining
import Dsm.Network.TotalMemory
import Dsm.Network.TableSync
import Dsm.Network.Departure
import Dsm.Sync.Lock
import Dsm.Sync.InitReset
import Dsm.Sync.LockMachine
import Dsm.Sync.LockSafety
import Dsm.Sync.LockQueue
import Dsm.Sync.LockMembership
import Dsm.Sync.MasterThreads
import Dsm.Sync.LockWaiting
import Dsm.Sync.LockHistory
import Dsm.Sync.LockOvertaking
import Dsm.Sync.LockCluster
import Dsm.Sync.LockRest
import Dsm.Sync.LockGrants
import Dsm.Sync.LockNesting
import Dsm.Sync.LockProgress
import Dsm.Sync.BarrierMachine
import Dsm.Sync.BarrierSafety
import Dsm.Sync.BarrierWaiting
import Dsm.Sync.BarrierSteps
import Dsm.Sync.BarrierProgress
import Dsm.Sync.BarrierMembership
import Dsm.Memory.Ownership
import Dsm.Memory.PageTable
import Dsm.Memory.Region
import Dsm.Memory.GlobalSpace
import Dsm.Memory.Mapping
import Dsm.Memory.Translation
import Dsm.Memory.FixedRegions
import Dsm.Memory.FreedRegions
import Dsm.Memory.AllocFailures
import Dsm.Memory.NodeMem
import Dsm.Memory.PageRange
import Dsm.Network.Startup
import Dsm.Memory.Donation
import Dsm.Init.Unwinding
import Dsm.Init.Lifecycle
import Dsm.Tcp.Message
import Dsm.Tcp.Send
import Dsm.Tcp.Receive
import Dsm.Tcp.PeerGone
import Dsm.Tcp.ServerMachine
import Dsm.Tcp.ServerProgress
import Dsm.Tcp.FrameBoundaries
import Dsm.Tcp.Descriptors
import Dsm.Tcp.Dispatch
import Dsm.Tcp.DispatchSafety
import Dsm.Sync.BarrierArrivals
import Dsm.Tcp.NodeMachine
import Dsm.Tcp.RoleSeparation
import Dsm.Tcp.AllocRequests
import Dsm.Tcp.InstallFrame
import Dsm.Tcp.ClusterTraffic
import Dsm.Tcp.GenuineMessages
import Dsm.Tcp.ClusterSides
import Dsm.Tcp.ClosedCluster
import Dsm.Tcp.Stream
import Dsm.Tcp.WireCluster
import Dsm.Tcp.Protocol
import Dsm.Tcp.LockWire
import Dsm.Tcp.StreamProgress
import Dsm.Tcp.ProtocolRuns
import Dsm.Tcp.LockWireProgress
import Dsm.Tcp.BarrierWireProgress
import Dsm.Tcp.ProtocolPair
import Dsm.Tcp.LocksAndBarriers
import Dsm.Tcp.PageTransfer
import Dsm.PageFault.FetchMachine
import Dsm.PageFault.FetchedCopies
import Dsm.PageFault.SharingMachine
import Dsm.PageFault.SingleWriter
import Dsm.PageFault.SharedMachine
import Dsm.PageFault.LockedReads
import Dsm.PageFault.RemoteMachine
import Dsm.PageFault.RemoteInvariant
import Dsm.PageFault.RemoteCopy
import Dsm.PageFault.RemoteMapping
import Dsm.PageFault.RemoteRecords
import Dsm.PageFault.FetchProgress
import Dsm.PageFault.MappedReads
import Dsm.PageFault.PageOps
import Dsm.PageFault.StateProtection
import Dsm.PageFault.FaultReturns
import Dsm.PageFault.FetchWait
import Dsm.PageFault.SignalHandler
