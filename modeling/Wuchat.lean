import Wuchat.Foundation.System
import Wuchat.Foundation.CString
import Wuchat.Foundation.Lines
import Wuchat.Http.Message
import Wuchat.Chat.Protocol
import Wuchat.Chat.Servlet
import Wuchat.Chat.Login
import Wuchat.Chat.LoginInvariant
import Wuchat.Chat.Speakers
import Wuchat.Chat.Names
import Wuchat.Foundation.Endian
import Wuchat.Streams.Exact
import Wuchat.Http.WsFrame
import Wuchat.Http.WsWriters
import Wuchat.Http.WsRecv
import Wuchat.Http.WsRoundTrip
import Wuchat.Http.WsBounds
import Wuchat.Http.WsControls
import Wuchat.Buffer.ByteArray
import Wuchat.Buffer.Flat
import Wuchat.HttpParser.Basic
import Wuchat.HttpParser.Url
import Wuchat.Http.RequestParser
import Wuchat.HttpParser.Invariant
import Wuchat.HttpParser.Runs
import Wuchat.Http.Pieces
import Wuchat.Http.Session
import Wuchat.HttpParser.Upgrade
import Wuchat.Http.WsUpgrade
import Wuchat.Buffer.Contents
import Wuchat.Buffer.Scalars
import Wuchat.Buffer.Strings
import Wuchat.Buffer.SocketRead
import Wuchat.Foundation.OrdSet
import Wuchat.Timer.Manager
import Wuchat.Timer.History
import Wuchat.Timer.Handles
import Wuchat.Timer.Runs
import Wuchat.Io.Invariant
import Wuchat.Io.Outcome
import Wuchat.Io.Registrations
import Wuchat.Io.Contexts
import Wuchat.Sched.Scheduler
import Wuchat.Sched.Tasks
import Wuchat.Chat.Frames
import Wuchat.Config.ConfigVar
import Wuchat.Hook.FdManager
import Wuchat.Hook.DoIo
import Wuchat.Hook.Sockets
import Wuchat.Foundation.Places
import Wuchat.Sched.Fibers
import Wuchat.Sched.Stop
import Wuchat.Sched.Wake
import Wuchat.Chat.Rosters
import Wuchat.HttpParser.Scans
import Wuchat.HttpParser.HeaderNames
import Wuchat.Http.ResponseHead
import Wuchat.Http.ResponseDump
import Wuchat.Buffer.Files
import Wuchat.Buffer.SocketWrite
import Wuchat.Http.WsReuse
import Wuchat.Http.WsEmpty
import Wuchat.Http.ConnectionPool
import Wuchat.Log.FileAppender
import Wuchat.Log.LogInit
import Wuchat.HttpParser.UrlParts
import Wuchat.Http.RequestHead
import Wuchat.Http.RequestDump
import Wuchat.Buffer.ShortReads
import Wuchat.Io.Idle
import Wuchat.Timer.Due
import Wuchat.Http.UrlCode
import Wuchat.Http.Params
import Wuchat.Http.QueryRoundTrip
import Wuchat.Http.Accessors
import Wuchat.Http.ResponseLines
import Wuchat.HttpParser.Callbacks
import Wuchat.Http.Connection
import Wuchat.Http.BodySize
import Wuchat.Util.Hex
import Wuchat.Util.Base64
import Wuchat.Http.PoolAges
import Wuchat.Hook.Timeouts
import Wuchat.Hook.NonBlock
import Wuchat.Hook.Bounds
import Wuchat.Log.Formatter
import Wuchat.Log.Patterns
import Wuchat.Log.PatternItems
import Wuchat.Buffer.Varints
import Wuchat.Buffer.Zigzag
import Wuchat.Foundation.Paths
import Wuchat.Chat.Resources
import Wuchat.Foundation.Bits
import Wuchat.Net.Address
import Wuchat.Net.Masks
import Wuchat.Net.Order
import Wuchat.Net.Ipv6Text
import Wuchat.Net.Lookup
import Wuchat.Foundation.Automaton
import Wuchat.HttpParser.Authority
import Wuchat.HttpParser.UrlGrammar
import Wuchat.HttpParser.ParsedUrl
import Wuchat.Net.Uri
import Wuchat.Net.UriRoundTrip
import Wuchat.Sched.FiberSwitch
import Wuchat.Foundation.Histories
import Wuchat.Http.Dispatch
import Wuchat.Http.Ends
import Wuchat.Http.HttpServer
import Wuchat.Http.Client
import Wuchat.Http.Exchange
import Wuchat.Net.TcpServer
import Wuchat.Timer.Wakeups
import Wuchat.HttpParser.Phases
import Wuchat.HttpParser.Order
import Wuchat.Config.Yaml
import Wuchat.Config.Registry
import Wuchat.Hook.Connect
import Wuchat.Hook.ConnectReturns
import Wuchat.Modules.ModuleManager
import Wuchat.Foundation.Levels
import Wuchat.Sched.Caller
import Wuchat.Util.Files
import Wuchat.Config.ConfDir
