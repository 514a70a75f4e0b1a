import Blinex.ForStd.PMap
import Blinex.ForStd.FirstMatch
import Blinex.ForStd.Run
import Blinex.ForStd.Table
import Blinex.ForStd.Prog
import Blinex.ForStd.Crash
import Blinex.ForStd.Fence
import Blinex.ForStd.OneShot
import Blinex.ForStd.ExpiringTable
import Blinex.ForStd.Metered
import Blinex.ForStd.Quota
import Blinex.ForStd.Blocks
import Blinex.ForStd.Quoting
import Blinex.ForStd.OnesComplement
import Blinex.ForStd.Semaphore
import Blinex.Go.Strings
import Blinex.Go.Netip
import Blinex.Go.Networks
import Blinex.Go.Base64
import Blinex.Go.Json
import Blinex.Go.JsonCorrect
import Blinex.Go.JsonFuel
import Blinex.Go.JsonInts
import Blinex.Native.Messages
import Blinex.Native.GrpcServer
import Blinex.Native.Store
import Blinex.Native.Ipam
import Blinex.Native.RateLimit
import Blinex.Native.Management
import Blinex.Native.PostgresStore
import Blinex.Native.GrpcHandlers
import Blinex.Native.HttpServer
import Blinex.Native.AdminLogin
import Blinex.Native.Auth
import Blinex.Native.SyncStreams
import Blinex.Native.SignalServer
import Blinex.Native.SignalAuth
import Blinex.Native.Acl
import Blinex.Native.NsRouter
import Blinex.Native.AclLinux
import Blinex.Native.Conntrack
import Blinex.Native.EchoForward
import Blinex.Native.ForwardTasks
import Blinex.Native.AclFilterTun
import Blinex.Native.PeerLink
import Blinex.Native.IceManager
import Blinex.Native.PeerManager
import Blinex.Native.WireGuard
import Blinex.Native.Resolver
import Blinex.Native.Routing
import Blinex.Native.DnsConfig
import Blinex.Native.Blocklist
import Blinex.Native.ClientState
import Blinex.Native.Engine
import Blinex.Native.RelayPath
import Blinex.Native.SyncDelivery
import Blinex.Spec.Policy
import Blinex.Spec.AclChain
import Blinex.Spec.AclEngines
import Blinex.Spec.HostFields
import Blinex.Spec.ForwardGate
import Blinex.Spec.ConntrackFlows
import Blinex.Spec.EchoReplies
import Blinex.Spec.PingForwarding
import Blinex.Spec.ForwardSlots
import Blinex.Spec.ForwardPolicy
import Blinex.Spec.FilteredPackets
import Blinex.Spec.ProbePolicy
import Blinex.Spec.DirectPath
import Blinex.Spec.IceWorkers
import Blinex.Spec.OfferAnswer
import Blinex.Spec.SyncOps
import Blinex.Spec.PeerDiff
import Blinex.Spec.MagicDNS
import Blinex.Spec.DnsLabels
import Blinex.Spec.DnsTakeover
import Blinex.Spec.PowerShellQuotes
import Blinex.Spec.BlocklistFeed
import Blinex.Spec.BlocklistSync
import Blinex.Spec.StateCrash
import Blinex.Spec.CryptokeyRouting
import Blinex.Spec.OSRoutes
import Blinex.Spec.AppliedRoutes
import Blinex.Spec.ExitNode
import Blinex.Spec.RelayLinks
import Blinex.Spec.VirtualEndpoints
import Blinex.Spec.AgentPolicy
import Blinex.Spec.SignalRouting
import Blinex.Spec.SignalPending
import Blinex.Spec.PendingQueue
import Blinex.Spec.SignalOrder
import Blinex.Spec.SignalDelivery
import Blinex.Spec.SignalTokens
import Blinex.Spec.RelayedPackets
import Blinex.Spec.SyncSubscriptions
import Blinex.Spec.PolicyDelivery
import Blinex.Spec.HandlerContracts
import Blinex.Spec.RestNotify
import Blinex.Spec.RejectedWrites
import Blinex.Spec.TenantIsolation
import Blinex.Spec.OperatorSettings
import Blinex.Spec.PeerRecordRaces
import Blinex.Spec.LoginRate
import Blinex.Spec.BucketEviction
import Blinex.Spec.AdminGuessing
import Blinex.Spec.IpamLeases
import Blinex.Spec.MeshAddresses
import Blinex.Spec.IpamPool
import Blinex.Spec.AdvertisedRoutes
import Blinex.Spec.MeshCapture
import Blinex.Spec.TokenRevocation
import Blinex.Spec.FreshTokens
import Blinex.Spec.Enrollment
import Blinex.Spec.DefaultGroup
import Blinex.Spec.StoredRecords
