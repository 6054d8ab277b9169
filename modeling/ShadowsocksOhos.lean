import ShadowsocksOhos.Core.Answering
import ShadowsocksOhos.Core.Prompt
import ShadowsocksOhos.Core.Occurs
import ShadowsocksOhos.Core.Base64
import ShadowsocksOhos.Core.Descriptors
import ShadowsocksOhos.Core.Dict
import ShadowsocksOhos.Core.Files
import ShadowsocksOhos.Core.Steps
import ShadowsocksOhos.Core.Binary64
import ShadowsocksOhos.Plugin.WriteHalf
import ShadowsocksOhos.Plugin.HttpObfs
import ShadowsocksOhos.Plugin.HttpRead
import ShadowsocksOhos.Plugin.HttpRequest
import ShadowsocksOhos.Plugin.TlsObfs
import ShadowsocksOhos.Plugin.TlsRead
import ShadowsocksOhos.Plugin.ObfsWrite
import ShadowsocksOhos.Plugin.TlsWrite
import ShadowsocksOhos.Plugin.ObfsHost
import ShadowsocksOhos.Ffi.Lifecycle
import ShadowsocksOhos.Ffi.Running
import ShadowsocksOhos.Ffi.TunFd
import ShadowsocksOhos.App.ProfileUrl
import ShadowsocksOhos.App.ProfileStore
import ShadowsocksOhos.App.SubscriptionPage
import ShadowsocksOhos.App.JsonStore
import ShadowsocksOhos.App.VpnExtension
import ShadowsocksOhos.App.JsValue
import ShadowsocksOhos.App.JsonParse
import ShadowsocksOhos.App.JsonPrint
import ShadowsocksOhos.App.SubscriptionBody
import ShadowsocksOhos.App.SubscriptionForms
import ShadowsocksOhos.App.SubscriptionFormats
import ShadowsocksOhos.App.ProfileFile
import ShadowsocksOhos.App.ProfileEdit
import ShadowsocksOhos.App.Dialable
import ShadowsocksOhos.App.JsonWrite
import ShadowsocksOhos.App.Utf8Skip
import ShadowsocksOhos.Core.Prefixed
import ShadowsocksOhos.Plugin.TlsHello
import ShadowsocksOhos.Ffi.LastError
import ShadowsocksOhos.App.StrictUrl
import ShadowsocksOhos.App.StatReports
import ShadowsocksOhos.Core.Shortest
import ShadowsocksOhos.App.JsonNumbers
import ShadowsocksOhos.App.NumberText
import ShadowsocksOhos.App.EditUnchanged
import ShadowsocksOhos.Core.LastWrite
import ShadowsocksOhos.Ffi.OptionString
import ShadowsocksOhos.App.JsonCut
import ShadowsocksOhos.App.JsonFaults
import ShadowsocksOhos.Core.Buffers
import ShadowsocksOhos.Ffi.ErrorSlots
import ShadowsocksOhos.Core.Muted
import ShadowsocksOhos.Plugin.ObfsErrors
import ShadowsocksOhos.Plugin.HttpTunnel
import ShadowsocksOhos.App.TrafficStats
import ShadowsocksOhos.App.MainPage
import ShadowsocksOhos.App.StatsPipeline
import ShadowsocksOhos.Plugin.TlsTunnel
import ShadowsocksOhos.Plugin.Forwarder
import ShadowsocksOhos.App.NumberRead
import ShadowsocksOhos.App.Stringify
import ShadowsocksOhos.Ffi.Bridge
import ShadowsocksOhos.Ffi.ConfigArrives
import ShadowsocksOhos.App.DeployAcl
import ShadowsocksOhos.App.VpnStart
