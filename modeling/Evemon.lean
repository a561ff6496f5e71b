import Evemon.ControlIdle
import Evemon.ControlSlots
import Evemon.InspectRoundTrip
import Evemon.GpuCodec
import Evemon.WireBuffer
import Evemon.EventStream
import Evemon.ServerJobs
import Evemon.ServerTimeouts
import Evemon.SignalDelivery
import Evemon.MonitorRows
import Evemon.StoreSteady
import Evemon.TaskInheritance
import Evemon.NetIo
import Evemon.SocketFile
import Evemon.SettingsPersist
import Evemon.PluginBroker
import Evemon.PluginActivation
import Evemon.EventBusDelivery
import Evemon.TreeRefresh
import Evemon.TreePlacement
import Evemon.TreeFilterSync
import Evemon.QtRefresh
import Evemon.WriteCapture
import Evemon.RateSources
import Evemon.SocketRates
import Evemon.WriteShown
import Evemon.PipeWireBound
import Evemon.PipeWirePublish
import Evemon.QtWritesSync
import Evemon.ProcessActions
import Evemon.Utf8Sanitize
import Evemon.PipeWireMeter
import Evemon.ProcMeta
import Evemon.DesktopSession
import Evemon.ArtLoader
import Evemon.GentooGate
import Evemon.Descendants
import Evemon.ReadFile
