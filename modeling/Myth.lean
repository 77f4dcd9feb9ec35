import Myth.Http
import Myth.Forward
import Myth.Tuples
import Myth.Body
import Myth.BytesBuf
import Myth.Request
import Myth.Errors
import Myth.Outcome
import Myth.Path
import Myth.Utf8
import Myth.Lossy
import Myth.Cors
import Myth.Filter
import Myth.Typing
import Myth.Or
import Myth.And
import Myth.Run
import Myth.Cursor
import Myth.Recovery
import Myth.BodyRun
import Myth.Library
import Myth.Route
import Myth.Routing
import Myth.Service
import Myth.BodyFormat
import Myth.Preflight
import Myth.CorsConfig
import Myth.CorsWrapper
import Myth.Security
import Myth.BodyEndpoint
import Myth.NoPanic
import Myth.Router
import Myth.SpelledPath
import Myth.StaticRouter
