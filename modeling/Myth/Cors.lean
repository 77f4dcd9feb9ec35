import Myth.Outcome

/-!
# CORS: `security/origin.rs`

`Config::apply` wraps a filter in `Cors`.  Before the wrapped filter runs,
`Cors::execute` decides between three futures: `VaryOrigin` around the filter when
there is no `Origin` header, a ready response (a preflight answer to `OPTIONS`, or a
403 for a disallowed origin or method), or `ApplyHeaders` around the filter.
`CorsStep` names the three and `Cors.dispatch` is that decision; the wrapped
filter's outcome is then mapped by `varyOriginResponder` or `applyHeaders`, which
touch only a success.
-/

namespace Myth

/-- `Config`. -/
structure Config where
  origins : Option (List String)
  methods : List Method
  allowHeaders : List HeaderName
  exposeHeaders : List HeaderName
  maxAge : Option Nat
  credentials : Bool

/-- What `Config::apply` asserts: some method, and some origin unless any is allowed. -/
def Config.Accepted (config : Config) : Prop :=
  config.methods ≠ [] ∧ config.origins ≠ some []

/-- `join_to_header_value`. -/
def joinToHeaderValue (values : List String) : HeaderValue :=
  .ofString (", ".intercalate values)

/-- `Config::expose_headers`. -/
def Config.exposeHeaderValue (config : Config) : Option HeaderValue :=
  if config.exposeHeaders.isEmpty then none
  else some (joinToHeaderValue (config.exposeHeaders.map HeaderName.name))

/-- `Config::preflight_headers`. -/
def Config.preflightHeaders (config : Config) : HeaderMap :=
  let headers : HeaderMap := match config.origins with
    | some _ => HeaderMap.insert [] VARY
        (.ofString "Origin, Access-Control-Request-Method, Access-Control-Request-Headers")
    | none => (HeaderMap.insert [] ACCESS_CONTROL_ALLOW_ORIGIN (.ofString "*")).insert VARY
        (.ofString "Access-Control-Request-Method, Access-Control-Request-Headers")
  let headers := headers.insert ACCESS_CONTROL_ALLOW_METHODS
    (joinToHeaderValue (config.methods.map Method.asStr))
  let headers := if config.allowHeaders.isEmpty then headers
    else headers.insert ACCESS_CONTROL_ALLOW_HEADERS
      (joinToHeaderValue (config.allowHeaders.map HeaderName.name))
  let headers := match config.exposeHeaderValue with
    | some value => headers.insert ACCESS_CONTROL_EXPOSE_HEADERS value
    | none => headers
  let headers := if config.credentials then
      headers.insert ACCESS_CONTROL_ALLOW_CREDENTIALS (.ofString "true")
    else headers
  match config.maxAge with
  | some maxAge => headers.insert ACCESS_CONTROL_MAX_AGE (.ofString (toString maxAge))
  | none => headers

/-- `Cors`, without the wrapped filter. -/
structure Cors where
  origins : Option (List String)
  methods : List Method
  allowHeaders : List HeaderName
  exposeHeaders : Option HeaderValue
  preflightHeaders : HeaderMap
  credentials : Bool

/-- `Cors::new`. -/
def Cors.new (config : Config) : Cors :=
  ⟨config.origins, config.methods, config.allowHeaders, config.exposeHeaderValue,
    config.preflightHeaders, config.credentials⟩

/-- `Origin`: how `check_origin` classifies an origin. -/
inductive Origin where
  | allowed | disallowed | any
  deriving DecidableEq, Repr

namespace Cors

/-- `Cors::check_origin`: byte equality with a listed origin. -/
def checkOrigin (cors : Cors) (origin : HeaderValue) : Origin :=
  match cors.origins with
  | some vec => if vec.any (fun allowed => HeaderValue.ofString allowed = origin) then .allowed
      else .disallowed
  | none => .any

/-- `HeaderName == &str`, which ignores ASCII case. -/
def headerNameEq (name : HeaderName) (s : String) : Bool :=
  name.name.map Char.toLower = s.map Char.toLower

/-- `str::trim_spaces_tabs`. -/
def trimSpacesTabs (s : List Char) : List Char :=
  ((s.dropWhile fun c => c = ' ' || c = '\t').reverse.dropWhile fun c => c = ' ' || c = '\t').reverse

/-- `str::split_whitespace`, on visible-ASCII text. -/
def splitWhitespace (s : List Char) : List (List Char) :=
  (s.splitOnP Char.isWhitespace).filter fun token => !token.isEmpty

/-- Whether some allowed header matches `requestHeader`. -/
def allowsHeader (cors : Cors) (requestHeader : List Char) : Bool :=
  cors.allowHeaders.any fun header => headerNameEq header (String.mk requestHeader)

/-- The two loops of `preflight_impl` over one `Access-Control-Request-Headers` value. -/
def checkRequestHeaders (cors : Cors) (value : HeaderValue) : Except StatusCode Unit :=
  match value.toStr with
  | none => .error StatusCode.FORBIDDEN
  | some value =>
    if ((value.data.splitOn ',').all fun padded => cors.allowsHeader (trimSpacesTabs padded)) &&
        (splitWhitespace value.data).all cors.allowsHeader then .ok ()
    else .error StatusCode.FORBIDDEN

/-- `Cors::preflight_impl`: the headers it has appended, and the failure status. -/
def preflightImpl (cors : Cors) (headers : HeaderMap) (request : Request) (origin : HeaderValue) :
    HeaderMap × Except StatusCode Unit :=
  match cors.checkOrigin origin with
  | .disallowed => (headers, .error StatusCode.FORBIDDEN)
  | check =>
    let headers := if check = .allowed then headers.append ACCESS_CONTROL_ALLOW_ORIGIN origin
      else headers
    match request.header ACCESS_CONTROL_REQUEST_METHOD with
    | none => (headers, .error StatusCode.BAD_REQUEST)
    | some requestMethod =>
      if !cors.methods.any (fun method => requestMethod = .ofString method.asStr) then
        (headers, .error StatusCode.FORBIDDEN)
      else
        (headers, (request.headerAll ACCESS_CONTROL_REQUEST_HEADERS).forM cors.checkRequestHeaders)

/-- `Cors::preflight`. -/
def preflight (cors : Cors) (request : Request) (origin : HeaderValue) : Response :=
  let (headers, result) := cors.preflightImpl cors.preflightHeaders request origin
  match result with
  | .ok () => ⟨StatusCode.NO_CONTENT, headers⟩
  | .error status => ⟨status, headers⟩

/-- The future `Cors::execute` builds. -/
inductive CorsStep where
  /-- `VaryOrigin` around the wrapped filter. -/
  | varyOrigin
  /-- A ready response; the wrapped filter does not run. -/
  | respond (response : Response)
  /-- `ApplyHeaders` around the wrapped filter. -/
  | applyHeaders (origin : HeaderValue) (vary : Bool)

/-- The `forbidden!` response. -/
def forbidden : Response :=
  let response := defaultResponse StatusCode.FORBIDDEN
  { response with headers := varyOrigin response.headers }

/-- The decision `Cors::execute` makes before any wrapped filter runs. -/
def dispatch (cors : Cors) (request : Request) : CorsStep :=
  match request.header ORIGIN with
  | none => .varyOrigin
  | some origin =>
    if request.method = .options then .respond (cors.preflight request origin)
    else
      match cors.checkOrigin origin with
      | .disallowed => .respond forbidden
      | check =>
        let (origin, vary) := if check = .allowed then (origin, true) else (.ofString "*", false)
        if request.method ∈ cors.methods then .applyHeaders origin vary else .respond forbidden

end Cors

/-- `Responder::into_response` of a value the wrapped filter succeeds with. -/
def Val.intoResponse : Val → Response
  | .response r => r
  | _ => ⟨StatusCode.OK, [(CONTENT_TYPE, TEXT_PLAIN)]⟩

/-- The success mapping of `VaryOrigin`. -/
def varyOriginResponder (success : Tuple) : Tuple :=
  match success with
  | [responder] =>
    let response := responder.intoResponse
    [.response { response with headers := varyOrigin response.headers }]
  | other => other

/-- The success mapping of `ApplyHeaders`. -/
def Cors.applyHeaders (cors : Cors) (origin : HeaderValue) (vary : Bool) (success : Tuple) : Tuple :=
  match success with
  | [responder] =>
    let response := responder.intoResponse.withHeader ACCESS_CONTROL_ALLOW_ORIGIN origin
    let response := match cors.exposeHeaders with
      | some value => response.withHeader ACCESS_CONTROL_EXPOSE_HEADERS value
      | none => response
    let response := if cors.credentials then
        response.withHeader ACCESS_CONTROL_ALLOW_CREDENTIALS (.ofString "true")
      else response
    [.response (if vary then { response with headers := varyOrigin response.headers }
      else response)]
  | other => other

end Myth
