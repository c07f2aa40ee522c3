import ReShadowsocks.AddressSet
import ReShadowsocks.AppManager
import ReShadowsocks.AppSettings
import ReShadowsocks.AppTable
import ReShadowsocks.AvlTree
import ReShadowsocks.Base64
import ReShadowsocks.Bavl
import ReShadowsocks.BavlIndex
import ReShadowsocks.BavlRemove
import ReShadowsocks.BavlTree
import ReShadowsocks.BinarySearch
import ReShadowsocks.BypassApps
import ReShadowsocks.Callbacks
import ReShadowsocks.ChunkBuffer
import ReShadowsocks.Cidr
import ReShadowsocks.Config
import ReShadowsocks.Coverage
import ReShadowsocks.CrashRecovery
import ReShadowsocks.DaemonConfig
import ReShadowsocks.DeviceId
import ReShadowsocks.DnsBuffer
import ReShadowsocks.DnsNat
import ReShadowsocks.DnsPackets
import ReShadowsocks.DnsTree
import ReShadowsocks.Download
import ReShadowsocks.DownloadCancel
import ReShadowsocks.DownloadRestart
import ReShadowsocks.Downloads
import ReShadowsocks.Escape
import ReShadowsocks.Expiry
import ReShadowsocks.Gfwlist
import ReShadowsocks.Greedy
import ReShadowsocks.Iptables
import ReShadowsocks.JavaLong
import ReShadowsocks.JavaString
import ReShadowsocks.Json
import ReShadowsocks.Lru
import ReShadowsocks.Memory
import ReShadowsocks.NatRules
import ReShadowsocks.NatSessions
import ReShadowsocks.NodeHeap
import ReShadowsocks.OneWorker
import ReShadowsocks.OnesComplement
import ReShadowsocks.OrderAge
import ReShadowsocks.Orders
import ReShadowsocks.Packet
import ReShadowsocks.PacketBuffer
import ReShadowsocks.PidFiles
import ReShadowsocks.Profile
import ReShadowsocks.ProfileManager
import ReShadowsocks.Program
import ReShadowsocks.Reads
import ReShadowsocks.RelayIsolation
import ReShadowsocks.RelayTable
import ReShadowsocks.Resources
import ReShadowsocks.Rfc4648
import ReShadowsocks.RootIp
import ReShadowsocks.Routes
import ReShadowsocks.Service
import ReShadowsocks.ServiceSteps
import ReShadowsocks.SocksClient
import ReShadowsocks.SocksHandshake
import ReShadowsocks.SpeedTest
import ReShadowsocks.StopNotLost
import ReShadowsocks.Supervision
import ReShadowsocks.TaskMap
import ReShadowsocks.TcpClient
import ReShadowsocks.TcpClosing
import ReShadowsocks.TcpRelay
import ReShadowsocks.Transition
import ReShadowsocks.Tunnel
import ReShadowsocks.UdpChecksum
import ReShadowsocks.UdpRelay
import ReShadowsocks.Utf8
import ReShadowsocks.VpnThreads
import ReShadowsocks.XorDecrypt
