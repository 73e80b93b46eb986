import MithAtomas.TweetNacl.Sign
import MithAtomas.Behaviour.ActionPipeline
import MithAtomas.Comms.CellArithmetic
import MithAtomas.Comms.MessageRouting
import MithAtomas.Comms.NeighbourTableHistory
import MithAtomas.Comms.SerialAccounts
import MithAtomas.Comms.SerialLink
import MithAtomas.Comms.SerialNoise
import MithAtomas.Comms.TofuBatch
import MithAtomas.Comms.UdpDrain
import MithAtomas.Comms.UdpWireFaithful
import MithAtomas.Core.BinaryTraceFrame
import MithAtomas.Core.BoundedQueueFifo
import MithAtomas.Core.CertificateChain
import MithAtomas.Core.ComponentOrigins
import MithAtomas.Core.Confluence
import MithAtomas.Core.JsonTraceSink
import MithAtomas.Core.RegistryAudit
import MithAtomas.Core.RegistryIsolation
import MithAtomas.Core.SystemRegistration
import MithAtomas.Core.SystemScheduler
import MithAtomas.Core.TickParallelReturn
import MithAtomas.Core.TypeName
import MithAtomas.Identity.ChaCha20Csprng
import MithAtomas.Sim.ClockAgreement
import MithAtomas.Sim.ClockConvexity
import MithAtomas.Sim.NoFlapping
import MithAtomas.Systems.DegradedMode
import MithAtomas.Systems.DirectedDelivery
import MithAtomas.Systems.DiscoveryIdentity
import MithAtomas.Systems.DiscoverySwarm
import MithAtomas.Systems.FaultDeduction
import MithAtomas.Systems.FaultHysteresis
import MithAtomas.Systems.FlockingStorage
import MithAtomas.Systems.HonestSwarm
import MithAtomas.Systems.Interference
import MithAtomas.Systems.MergeWindow
import MithAtomas.Systems.Replay
import MithAtomas.Systems.RoleSettling
import MithAtomas.Systems.SelfEcho
import MithAtomas.Systems.TrustOnFirstUse
import MithAtomas.Framework.GroupedText
import MithAtomas.Identity.IdText
import MithAtomas.Core.GeneratedKeys
import MithAtomas.Core.ThreadPool
import MithAtomas.Comms.SerialDescriptor
import MithAtomas.Core.WorldDump
import MithAtomas.Systems.SpeedLimit
import MithAtomas.Comms.UdpNetwork
import MithAtomas.Systems.FlockingSymmetry
import MithAtomas.Sim.CheckedBus
