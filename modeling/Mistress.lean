import Mistress.Transition
import Mistress.Table
import Mistress.Pattern
import Mistress.Utils
import Mistress.Cookies
import Mistress.Expires
import Mistress.HandleCookies
import Mistress.CookieEcho
import Mistress.Manager
import Mistress.Sched
import Mistress.Pass
import Mistress.WakeUp
import Mistress.LuaStack
import Mistress.Recv
import Mistress.HttpParser
import Mistress.Receive
import Mistress.ReadResult
import Mistress.ParserTrace
import Mistress.ParseError
import Mistress.Headers
import Mistress.SplitInvariance
import Mistress.ContentDecoding
import Mistress.Framing
import Mistress.Stat
import Mistress.Phase
import Mistress.Launcher
import Mistress.LoadRate
import Mistress.Conservation
import Mistress.TestShutDown
import Mistress.Operation
import Mistress.Runtime
import Mistress.Join
import Mistress.Bystander
import Mistress.ShutDown
import Mistress.Ownership
import Mistress.Pool
import Mistress.PoolInv
import Mistress.Exclusive
import Mistress.Finishing
import Mistress.Lifecycle
import Mistress.Gauges
import Mistress.Message
import Mistress.Control
import Mistress.Completion
import Mistress.Calendar
import Mistress.Choice
import Mistress.ResolveHost
import Mistress.Scope
import Mistress.Lines
import Mistress.Accounting
import Mistress.BuildReq
import Mistress.Upload
import Mistress.Inherit
import Mistress.Send
import Mistress.Decoder
import Mistress.Gunzip
import Mistress.Zip
import Mistress.Resume
import Mistress.Scan
import Mistress.FieldLine
import Mistress.FieldRun
import Mistress.StatusLine
import Mistress.Chunks
import Mistress.Response
import Mistress.Delivery
import Mistress.RequestParser
import Mistress.RequestLine
import Mistress.Request
import Mistress.Serving
import Mistress.Json
import Mistress.JsonNumber
import Mistress.JsonString
import Mistress.JsonRoundTrip
import Mistress.JsonRegular
import Mistress.JsonTotal
import Mistress.Payload
