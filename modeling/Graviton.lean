import Graviton.App.Names
import Graviton.Base.IpClass
import Graviton.Base.Ipv6
import Graviton.Base.Mac
import Graviton.Base.MemoryMap
import Graviton.Base.NodeId
import Graviton.Base.ThreadPause
import Graviton.Base.ThreadReturn
import Graviton.Protocol.Cadence
import Graviton.Protocol.Configuration
import Graviton.Protocol.Heartbeat
import Graviton.Protocol.Selection
import Graviton.Protocol.Settings
import Graviton.Protocol.Station
import Graviton.Service.LogFile
import Graviton.Service.LogManager
import Graviton.Service.PublicIp
import Graviton.Service.Receive
import Graviton.Service.Send
import Graviton.Service.StopThreads
import Graviton.Service.ThreadMap
import Graviton.Service.ThreadMonitor
import Graviton.Utility.CpuInfo
import Graviton.Utility.FileCount
import Graviton.Utility.IniDocument
import Graviton.Utility.OsRelease
import Graviton.Utility.StateMachine
