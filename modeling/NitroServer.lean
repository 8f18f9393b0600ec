import NitroServer.Lib.Run
import NitroServer.Lib.Search
import NitroServer.Lib.Assoc
import NitroServer.Lib.Table
import NitroServer.Lib.Buffer
import NitroServer.Lib.Snoc
import NitroServer.Lib.JsonSchema
import NitroServer.Lib.EventStream
import NitroServer.Lib.Loops
import NitroServer.Lib.Mapped
import NitroServer.Engine.Types
import NitroServer.Engine.WsCodec
import NitroServer.Engine.HttpParse
import NitroServer.Engine.Framing
import NitroServer.Engine.Conn
import NitroServer.Engine.WebSocket
import NitroServer.Engine.Process
import NitroServer.Engine.Loop
import NitroServer.Lane.Machine
import NitroServer.Lane.Credit
import NitroServer.Lane.Tracks
import NitroServer.Lane.Http
import NitroServer.Lane.Refine
import NitroServer.Lane.Discipline
import NitroServer.Lane.Replies
import NitroServer.Lane.Wakeup
import NitroServer.Lane.Pipeline
import NitroServer.Ws.Utf8
import NitroServer.Ws.Frames
import NitroServer.Ws.Decoder
import NitroServer.Ws.Session
import NitroServer.Ws.Messages
import NitroServer.Ws.Malformed
import NitroServer.Ws.Outbound
import NitroServer.Ws.Upgrade
import NitroServer.Ws.Closing
import NitroServer.Router.Trie
import NitroServer.Router.Search
import NitroServer.Router.Registry
import NitroServer.Router.Match
import NitroServer.Router.Precedence
import NitroServer.Router.Captures
import NitroServer.Router.Allowed
import NitroServer.Runner.Routes
import NitroServer.Runner.Effects
import NitroServer.Runner.Reload
import NitroServer.Runner.InStep
import NitroServer.H2.Session
import NitroServer.H2.Delivery
import NitroServer.H2.Budget
import NitroServer.H2.Responses
import NitroServer.Chunked.Grammar
import NitroServer.Chunked.Agree
import NitroServer.Chunked.Segments
import NitroServer.Admission.Gate
import NitroServer.Admission.Limits
import NitroServer.Outlet.Writes
import NitroServer.Outlet.Accounts
import NitroServer.Outlet.Timeout
import NitroServer.Timer.Drain
import NitroServer.Timer.Proxy
import NitroServer.Timer.Calm
import NitroServer.Timer.HeadTimeout
import NitroServer.Timer.ProxyHeader
import NitroServer.InFlight.Tables
import NitroServer.InFlight.Stale
import NitroServer.H2.Handed
import NitroServer.Metrics.Accumulator
import NitroServer.Runner.Chains
import NitroServer.Bridge.Unpack
import NitroServer.Bridge.Text
import NitroServer.Bridge.HeaderList
import NitroServer.Schema.ApiSchema
import NitroServer.Schema.Drift
import NitroServer.Writers.Pool
import NitroServer.Writers.Kept
import NitroServer.Helper.Protocol
import NitroServer.Helper.Alone
import NitroServer.Lib.HttpReader
import NitroServer.Answer.Delivery
import NitroServer.Answer.OneShot
import NitroServer.Answer.Stream
import NitroServer.Answer.Paths
import NitroServer.Ws.CodeSpace
import NitroServer.Ws.FrameCodec
import NitroServer.Head.Lines
import NitroServer.Head.Target
import NitroServer.Head.Grammar
import NitroServer.Head.Framing
import NitroServer.Head.Lists
import NitroServer.Bridge.Subprotocol
import NitroServer.Chunked.PrefixCode
import NitroServer.Lib.Decimal
import NitroServer.Lib.Json
import NitroServer.Json.Writer
import NitroServer.Json.Wrapper
import NitroServer.Json.Numbers
import NitroServer.Json.Escape
import NitroServer.Json.Documents
import NitroServer.Json.Template
import NitroServer.Pending.Payloads
import NitroServer.Runner.OutboundStream
import NitroServer.Answer.Files
import NitroServer.Answer.Paced
import NitroServer.Api.Text
import NitroServer.Api.Sse
import NitroServer.Api.Cookie
import NitroServer.Api.Query
import NitroServer.Api.StaticFiles
import NitroServer.Api.RateLimit
import NitroServer.Api.RateBound
import NitroServer.Api.ClientKey
import NitroServer.Api.Multipart
import NitroServer.Api.FormData
import NitroServer.Api.StaticPath
import NitroServer.Chunked.Sizes
import NitroServer.Dispatch.Emitters
import NitroServer.Dispatch.Controller
import NitroServer.Api.Cidr
import NitroServer.Api.Compress
import NitroServer.Metrics.Quantiles
import NitroServer.Admission.Address
import NitroServer.Lib.Recent
import NitroServer.Runner.Gate
import NitroServer.Runner.Machine
import NitroServer.Runner.Slots
import NitroServer.Runner.Bodies
import NitroServer.Runner.Moves
import NitroServer.Runner.Once
import NitroServer.Runner.Acks
import NitroServer.Runner.Handover
import NitroServer.Runner.Frames
