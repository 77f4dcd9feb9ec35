import Myth.Tuples
import Myth.Path
import Myth.Cors

/-!
# Filters and their execution: `filter/*.rs`

`Filter` is sealed in the code, so every filter is a tree of the library's
combinators over its leaves; `Filter` is that tree and `Leaf` the leaves.  The
functions a user gives `handle`, `recover` and `recover_forward` are Lean functions
in the tree.  `execute` runs a tree to completion on a request, a state and an
input, as polling the combinator futures (`AndFuture`, `OrFuture`, `ConsumeFuture`,
…) to `Ready` does: each arm below is one state of one future.

The code's types fix the arity of every `Input` and `Success` tuple; `inputArity` and
`successArity` compute them from the tree, where `receive` and `untuple` carry the
arity their type parameter fixes.  `Then` splits its second filter's forwarded input
at the arity of its first filter's success, and `Receive` splits its input at the
arity of its filter's input, as `Append::remove` does for those types.
-/

namespace Myth

/-- The library's leaf filters. -/
inductive Leaf where
  /-- `basic::any`. -/
  | any
  /-- `basic::never`. -/
  | never
  /-- A filter that succeeds with one value read from the request: `method::method`,
  `header::value_optional`, `basic::borrowing`. -/
  | extract (get : Request → Val)
  /-- `method::get`, `method::post`, …: `define_method` for `method`. -/
  | methodIs (method : Method)
  /-- `path::literal`. -/
  | literal (lit : Literal)
  /-- `path::param_str`. -/
  | paramStr
  /-- `path::end`. -/
  | pathEnd
  /-- `path::tail`. -/
  | tail
  /-- `path::tail_path`. -/
  | tailPath
  /-- `body::all`. -/
  | takeBody
  /-- `cache::if_unmodified_since`, with `httpdate::parse_http_date`. -/
  | ifUnmodifiedSince (parseHttpDate : String → Option Nat)
  /-- `security::x_content_type_options`. -/
  | xContentTypeOptions

/-- A leaf's outcome with unit input, as the `Input = ()` leaves return it. -/
def readyOutcome (r : RequestState × Outcome Unit Tuple) : RequestOutcome Tuple Tuple :=
  ⟨r.1, r.2.mapInput fun () => []⟩

namespace Leaf

/-- `define_method`: success for the method, else `MethodNotAllowed` with its bit. -/
def methodFilter (method : Method) (request : Request) (st : RequestState) :
    RequestState × Outcome Unit Tuple :=
  if request.method = method then (st, .success [])
  else (st, .forward () (.methodNotAllowed (.ofMethod method)))

/-- `IfUnmodifiedSince::execute`: forwards with its input unless the cached copy is
newer than `modifiedTime`. -/
def ifUnmodifiedSinceOutcome (parseHttpDate : String → Option Nat) (request : Request)
    (input : Tuple) (modifiedTime : Nat) : Outcome Tuple Tuple :=
  if request.method = .get ∨ request.method = .head then
    match request.header IF_MODIFIED_SINCE with
    | some value =>
      match value.toStr.bind parseHttpDate with
      | some cachedTime =>
        if cachedTime > modifiedTime then .success [.response ⟨StatusCode.NOT_MODIFIED, []⟩]
        else .forward input .notFound
      | none => .error (.invalidIfUnmodifiedSince value)
    | none => .forward input .notFound
  else .forward input .notFound

/-- What each leaf's future resolves to. -/
def execute (request : Request) : Leaf → RequestState → Tuple → RequestOutcome Tuple Tuple
  | any, st, _ => ⟨st, .success []⟩
  | never, st, _ => ⟨st, .forward [] .notFound⟩
  | extract get, st, _ => ⟨st, .success [get request]⟩
  | methodIs method, st, _ => readyOutcome (methodFilter method request st)
  | literal lit, st, _ => readyOutcome (Myth.literal lit request st)
  | paramStr, st, _ => readyOutcome (Myth.paramStr request st)
  | pathEnd, st, _ => readyOutcome (Myth.pathEnd request st)
  | tail, st, _ => readyOutcome (Myth.tail request st)
  | tailPath, st, _ => readyOutcome (Myth.tailPath request st)
  | takeBody, st, _ =>
    ⟨{ st with body := st.body.awaitBody.1 },
      match st.body.awaitBody.2 with
      | .ok (bytes, len) => .success [.bytesBuf ⟨bytes, len⟩]
      | .error error => .error (.body error)⟩
  | ifUnmodifiedSince parseHttpDate, st, input =>
    ⟨st, ifUnmodifiedSinceOutcome parseHttpDate request input
      (match input with | [.systemTime t] => t | _ => 0)⟩
  | xContentTypeOptions, st, input =>
    ⟨st, .success (match input with
      | [.response response] =>
        [.response (response.withHeader X_CONTENT_TYPE_OPTIONS (.ofString "nosniff"))]
      | other => other)⟩

/-- The arity of a leaf's `Input`. -/
def inputArity : Leaf → Nat
  | ifUnmodifiedSince _ | xContentTypeOptions => 1
  | _ => 0

/-- The arity of a leaf's `Success`. -/
def successArity : Leaf → Nat
  | any | methodIs _ | literal _ | pathEnd => 0
  | _ => 1

end Leaf

/-- A filter: the library's combinators over its leaves. -/
inductive Filter where
  | leaf (leaf : Leaf)
  /-- `And` (`Filter::and`). -/
  | and (first second : Filter)
  /-- `Or` (`Filter::or`). -/
  | or (first second : Filter)
  /-- `Then` (`Filter::then`), whose future is `ConsumeFuture`. -/
  | consume (first second : Filter)
  /-- `Handle` (`Filter::handle`). -/
  | handle (filter : Filter) (func : Tuple → Except BoxedFilterError Val)
  /-- `Recover` (`Filter::recover`) for the error type `E`. -/
  | recover (filter : Filter) (E : Recoverable) (func : BoxedFilterError → Except BoxedFilterError Val)
  /-- `RecoverForward` (`Filter::recover_forward`) for the error type `E`. -/
  | recoverForward (filter : Filter) (E : Recoverable)
      (func : BoxedFilterError → Except BoxedFilterError Forwarding)
  /-- `Receive` (`Filter::receive`), for an `R` of arity `receive`. -/
  | receive (receive : Nat) (filter : Filter)
  /-- `Untuple` (`Filter::untuple`), for an inner tuple of arity `arity`. -/
  | untuple (arity : Nat) (filter : Filter)
  /-- `DynamicFilter` (`Filter::dynamic`). -/
  | dynamic (filter : Filter)
  /-- `Arc<T>`. -/
  | arc (filter : Filter)
  /-- `Cors`, as built by `security::origin::Config::apply`. -/
  | cors (cors : Cors) (filter : Filter)

namespace Filter

/-- The arity of `FilterBase::Success`. -/
def successArity : Filter → Nat
  | leaf l => l.successArity
  | and first second => first.successArity + second.successArity
  | or first _ => first.successArity
  | consume _ second => second.successArity
  | handle _ _ | cors _ _ => 1
  | recover filter _ _ | recoverForward filter _ _ | dynamic filter | arc filter =>
    filter.successArity
  | receive r filter => r + filter.successArity
  | untuple arity _ => arity

/-- The arity of `FilterBase::Input`. -/
def inputArity : Filter → Nat
  | leaf l => l.inputArity
  | and _ second => second.inputArity
  | or first _ => first.inputArity
  | consume first second => second.inputArity - first.successArity
  | handle filter _ | recover filter _ _ | untuple _ filter | dynamic filter | arc filter
  | cors _ filter => filter.inputArity
  | recoverForward _ _ _ => 0
  | receive r filter => r + filter.inputArity

/-- `FilterExecute::execute`, with its future polled to `Ready`. -/
def execute (request : Request) : Filter → RequestState → Tuple → RequestOutcome Tuple Tuple
  | leaf l, st, input => l.execute request st input
  | and first second, st, input =>
    match execute request first st [] with
    | ⟨st, .success success⟩ => (execute request second st input).map (Tuple.append success)
    | ⟨st, .error error⟩ => ⟨st, .error error⟩
    | ⟨st, .forward _ forwarding⟩ => ⟨st, .forward input forwarding⟩
  | or first second, st, input =>
    match execute request first st input with
    | ⟨st', .forward input' forwarding⟩ =>
      match execute request second (st'.setPathIndex st.currentPathIndex) input' with
      | ⟨st'', .forward input'' forwarding'⟩ =>
        ⟨st''.setPathIndex st.currentPathIndex, .forward input'' (forwarding.combine forwarding')⟩
      | result => result
    | result => result
  | consume first second, st, prepend =>
    match execute request first st [] with
    | ⟨st, .success success⟩ =>
      (execute request second st (Tuple.append prepend success)).mapInput fun input =>
        (Tuple.remove first.successArity input).1
    | ⟨st, .error error⟩ => ⟨st, .error error⟩
    | ⟨st, .forward _ forwarding⟩ => ⟨st, .forward prepend forwarding⟩
  | handle filter func, st, input =>
    match execute request filter st input with
    | ⟨st, .success success⟩ => ⟨st, .ofResult ((func success).map fun ok => [ok])⟩
    | result => result
  | recover filter E func, st, input =>
    match execute request filter st input with
    | ⟨st', .success success⟩ => ⟨st'.setPathIndex st.currentPathIndex, .success success⟩
    | ⟨st', .error error⟩ =>
      match E.recover error with
      | .ok error =>
        ⟨st'.setPathIndex st.currentPathIndex, .ofResult ((func error).map fun ok => [ok])⟩
      | .error error => ⟨st', .error error⟩
    | result => result
  | recoverForward filter E func, st, _ =>
    match execute request filter st [] with
    | ⟨st', .error error⟩ =>
      match E.recover error with
      | .ok error =>
        ⟨st', match func error with
          | .ok forwarding => .forward [] forwarding
          | .error error => .error error⟩
      | .error error => ⟨st', .error error⟩
    | result => result
  | receive _ filter, st, input =>
    match Tuple.remove filter.inputArity input with
    | (received, input) =>
      match execute request filter st input with
      | ⟨st, .success success⟩ => ⟨st, .success (Tuple.append received success)⟩
      | ⟨st, .error error⟩ => ⟨st, .error error⟩
      | ⟨st, .forward input forwarding⟩ => ⟨st, .forward (Tuple.append received input) forwarding⟩
  | untuple _ filter, st, input => (execute request filter st input).map Tuple.intoInner
  | dynamic filter, st, input => execute request filter st input
  | arc filter, st, input => execute request filter st input
  | cors c filter, st, input =>
    match c.dispatch request with
    | .varyOrigin => (execute request filter st input).map varyOriginResponder
    | .respond response => ⟨st, .success [.response response]⟩
    | .applyHeaders origin vary => (execute request filter st input).map (c.applyHeaders origin vary)

/-! ## One step of `and()` and `handle()` -/

variable {request : Request} {f g : Filter} {st st' : RequestState} {input : Tuple}

theorem execute_and_of_success {success : Tuple} (h : f.execute request st [] = ⟨st', .success success⟩) :
    (and f g).execute request st input = (g.execute request st' input).map (Tuple.append success) := by
  simp only [execute, h]

theorem execute_and_of_error {error : BoxedFilterError}
    (h : f.execute request st [] = ⟨st', .error error⟩) :
    (and f g).execute request st input = ⟨st', .error error⟩ := by
  simp only [execute, h]

theorem execute_handle_of_success {func : Tuple → Except BoxedFilterError Val} {success : Tuple}
    (h : f.execute request st input = ⟨st', .success success⟩) :
    (handle f func).execute request st input =
      ⟨st', .ofResult ((func success).map fun ok => [ok])⟩ := by
  simp only [execute, h]

theorem execute_handle_of_error {func : Tuple → Except BoxedFilterError Val} {error : BoxedFilterError}
    (h : f.execute request st input = ⟨st', .error error⟩) :
    (handle f func).execute request st input = ⟨st', .error error⟩ := by
  simp only [execute, h]

/-- A `handle()` answers its filter's success with its function and passes on the rest. -/
theorem execute_handle_outcome (f : Filter) (func : Tuple → Except BoxedFilterError Val)
    (request : Request) (st : RequestState) (input : Tuple) :
    ((handle f func).execute request st input).outcome =
      match (f.execute request st input).outcome with
      | .success success => .ofResult ((func success).map fun ok => [ok])
      | o => o := by
  simp only [execute]
  rcases f.execute request st input with ⟨st', _ | _ | _⟩ <;> rfl

end Filter

end Myth
