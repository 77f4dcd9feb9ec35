import Myth.Filter

/-!
# Filters the library builds from others (`path.rs`, `header.rs`, `method.rs`)

Some of the library's filters are not leaves but combinator trees, and are modelled
as the trees the code builds: `path::param::<T>()` parses the segment `param_str()`
read and turns a parse failure into a forward, and `header::value(name)` turns a
missing header into a forward, each through a `recover_forward()` of an error type
private to it.  A `FromStr` impl is its parse function, `T::from_str` as `fromStr`, and
`Mime::from_str` is `mimeFromStr`.
-/

namespace Myth.Filter

/-- `path::param::<T>()`, for `T::from_str` as `fromStr`. -/
def param (fromStr : String → Option Val) : Filter :=
  .recoverForward
    (.handle (.leaf .paramStr) fun success =>
      match success with
      | [.str segment] =>
        match fromStr segment with
        | some value => .ok value
        | none => .error .forwardParam
      | _ => .error .forwardParam)
    (.error .forwardParam) fun _ => .ok .notFound

/-- `header::value_optional(name)`. -/
def valueOptional (name : HeaderName) : Filter :=
  .leaf (.extract fun request => .option ((request.header name).map .headerValue))

/-- `header::value(name)`. -/
def value (name : HeaderName) : Filter :=
  .recoverForward
    (.handle (valueOptional name) fun success =>
      match success with
      | [.option (some value)] => .ok value
      | _ => .error .headerMissing)
    (.error .headerMissing) fun _ => .ok .notFound

/-- `method::method()`. -/
def method : Filter := .leaf (.extract fun request => .method request.method)

/-- `header::content_type()`: the `Content-Type` header read as a media type by
`Mime::from_str` (`mimeFromStr`), and the header itself. -/
def contentType (mimeFromStr : String → Option Mime) : Filter :=
  .untuple 2 (.handle (valueOptional CONTENT_TYPE) fun success =>
    match success with
    | [.option (some (.headerValue value))] =>
      .ok (.tuple [.option ((value.toStr.bind mimeFromStr).map .mime), .option (some (.headerValue value))])
    | _ => .ok (.tuple [.option none, .option none]))

/-- `basic::cloning(t)`. -/
def cloning (t : Val) : Filter := .handle (.leaf .any) fun _ => .ok t

/-! ## The private errors never escape -/

/-- `path::param::<T>()` succeeds, or forwards with `NotFound`: its `ForwardParam` is
always recovered. -/
theorem param_succeeds_or_notFound (fromStr : String → Option Val) (request : Request)
    (st : RequestState) (input : Tuple) :
    (∃ s, ((param fromStr).execute request st input).outcome = .success s) ∨
      ∃ c, ((param fromStr).execute request st input).outcome = .forward c .notFound := by
  have hleaf : (∃ st' s, Myth.paramStr request st = (st', .success [.str s])) ∨
      Myth.paramStr request st = (st, .forward () .notFound) := by
    unfold Myth.paramStr decodedSegment
    rcases segment request st with _ | ⟨seg, len⟩ <;> simp
  rcases hleaf with ⟨st', s, h⟩ | h
  · rcases hp : fromStr s with _ | v <;>
      simp [param, execute, Leaf.execute, readyOutcome, h, hp, Outcome.mapInput, Outcome.ofResult,
        Except.map, Recoverable.recover, Recoverable.Matches, BoxedFilterError.typeId]
  · simp [param, execute, Leaf.execute, readyOutcome, h, Outcome.mapInput]

/-- `header::value(name)` succeeds with the header, or forwards with `NotFound` when
there is none: its `HeaderMissing` is always recovered. -/
theorem execute_value (name : HeaderName) (request : Request) (st : RequestState) (input : Tuple) :
    (value name).execute request st input =
      ⟨st, ((request.header name).map fun v => .success [.headerValue v]).getD
        (.forward [] .notFound)⟩ := by
  rcases h : request.header name with _ | v <;>
    simp [value, valueOptional, execute, Leaf.execute, h, Outcome.ofResult, Except.map,
      Recoverable.recover, Recoverable.Matches, BoxedFilterError.typeId]

/-! ## `tail_path()` hands on only safe paths -/

/-- **`path::tail_path()`.**  It forwards with `NotFound`, the state untouched, when
`sanitize_path` refuses the rest of the path; otherwise it moves the cursor to the end
and succeeds with the components `sanitize_path` kept, none of them empty, `.` or
`..`, or holding a separator. -/
theorem execute_tailPath (request : Request) (st : RequestState) (input : Tuple) :
    ((Filter.leaf .tailPath).execute request st input = ⟨st, .forward [] .notFound⟩ ∧
      sanitizePath (st.currentPath request) = none) ∨
    ∃ pb, sanitizePath (st.currentPath request) = some pb ∧
      (Filter.leaf .tailPath).execute request st input =
        ⟨st.endCurrentPathIndex request, .success [.pathBuf pb]⟩ ∧
      ∀ c ∈ pb, c ≠ "" ∧ c ≠ "." ∧ c ≠ ".." ∧ '/' ∉ c.data ∧ '\\' ∉ c.data := by
  simp only [execute, Leaf.execute, readyOutcome, Myth.tailPath]
  rcases h : sanitizePath (st.currentPath request) with _ | pb
  · exact .inl ⟨rfl, rfl⟩
  · exact .inr ⟨pb, rfl, rfl, fun _ hc => sanitizePath_component h hc⟩

/-! ## The conditional-request pattern of `if_unmodified_since` -/

/-- `cloning(modified_time).consume(if_unmodified_since())` runs in one step: it keeps
the state and decides as `IfUnmodifiedSince` does, forwarding nothing. -/
theorem execute_cloning_ifUnmodifiedSince (parseHttpDate : String → Option Nat) (modifiedTime : Nat)
    (request : Request) (st : RequestState) :
    (consume (cloning (.systemTime modifiedTime)) (.leaf (.ifUnmodifiedSince parseHttpDate))).execute
        request st [] =
      ⟨st, (Leaf.ifUnmodifiedSinceOutcome parseHttpDate request [.systemTime modifiedTime] modifiedTime).mapInput
        fun input => (Tuple.remove 1 input).1⟩ :=
  rfl

/-- **The conditional-request pattern.**  `cloning(modified_time).consume(
if_unmodified_since()).or(filter)`, as the documentation of `if_unmodified_since`
builds it, answers a `GET` or `HEAD` whose `If-Modified-Since` parses to a time after
`modified_time` with 304 and an unparsable one with `InvalidIfUnmodifiedSince`, in both
cases without running `filter`; every other request gets the outcome of `filter` from
the same state, with the cursor handed back after a forward. -/
theorem execute_cached_or (parseHttpDate : String → Option Nat) (modifiedTime : Nat) (filter : Filter)
    (request : Request) (st : RequestState) :
    let cached := or (consume (cloning (.systemTime modifiedTime)) (.leaf (.ifUnmodifiedSince parseHttpDate)))
      filter
    (∀ value cachedTime, (request.method = .get ∨ request.method = .head) →
      request.header IF_MODIFIED_SINCE = some value → value.toStr.bind parseHttpDate = some cachedTime →
      modifiedTime < cachedTime →
      cached.execute request st [] = ⟨st, .success [.response ⟨StatusCode.NOT_MODIFIED, []⟩]⟩) ∧
    (∀ value, (request.method = .get ∨ request.method = .head) →
      request.header IF_MODIFIED_SINCE = some value → value.toStr.bind parseHttpDate = none →
      cached.execute request st [] = ⟨st, .error (.invalidIfUnmodifiedSince value)⟩) ∧
    ((¬(request.method = .get ∨ request.method = .head) ∨ request.header IF_MODIFIED_SINCE = none ∨
        ∃ value cachedTime, request.header IF_MODIFIED_SINCE = some value ∧
          value.toStr.bind parseHttpDate = some cachedTime ∧ cachedTime ≤ modifiedTime) →
      cached.execute request st [] =
        match filter.execute request st [] with
        | ⟨st', .forward input reason⟩ => ⟨st'.setPathIndex st.currentPathIndex, .forward input reason⟩
        | result => result) := by
  intro cached
  have hfirst := execute_cloning_ifUnmodifiedSince parseHttpDate modifiedTime request st
  refine ⟨fun value cachedTime hm hv hp ht => ?_, fun value hm hv hp => ?_, fun h => ?_⟩
  · rw [execute, hfirst]
    simp only [Leaf.ifUnmodifiedSinceOutcome, if_pos hm, hv, hp, Option.some_bind, if_pos ht]
    rfl
  · rw [execute, hfirst]
    simp only [Leaf.ifUnmodifiedSinceOutcome, if_pos hm, hv, hp]
    rfl
  · have hforward : Leaf.ifUnmodifiedSinceOutcome parseHttpDate request [.systemTime modifiedTime] modifiedTime =
        .forward [.systemTime modifiedTime] .notFound := by
      unfold Leaf.ifUnmodifiedSinceOutcome
      rcases h with hm | hv | ⟨value, cachedTime, hv, hp, ht⟩
      · rw [if_neg hm]
      · simp [hv]
      · simp [hv, hp, Nat.not_lt.mpr ht]
    have hremove : (Tuple.remove 1 [Val.systemTime modifiedTime]).1 = [] := rfl
    rw [execute, hfirst, hforward]
    simp only [Outcome.mapInput, hremove, RequestState.setPathIndex_self]
    rcases filter.execute request st [] with ⟨st', _ | _ | _⟩ <;> rfl

end Myth.Filter
