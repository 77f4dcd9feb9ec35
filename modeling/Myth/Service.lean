import Myth.Typing
import Myth.Or
import Myth.Recovery
import Myth.Routing
import Mathlib.Data.String.Basic

/-!
# From a run to a response (`service.rs`, `forward.rs`, `errors.rs`, `response.rs`)

`handle_requests` runs its filter from `RequestState::new` on `()` and turns the
outcome into the response: a success by the responder's `into_response`, an error
by its type's `FilterError::into_response`, a forward by `Forwarding::into_response`,
which is 404, or 405 with an `Allow` header that `into_header_value` builds in nine
`check_method!` steps over one string.  Some `into_response`s panic (`unimplemented!`,
`unreachable!`, a failed `expect`); the model returns the panic's message as the error
of an `Except`.

A filter the code can serve has `Input = ()` and `Success = (R,)`; `Endpoint` carries
that, so the response of a success is read off a one-tuple without a default.

    intoHeaderValue_eq : `Allow` names the attempted methods, in the order of
      `standardMethods`, separated by ", "

Over these, two runs of the whole service: a router by method answers a request of
another method with 405 and the methods it routes (`handleRequest_methodNotAllowed`),
and a route's trailing-slash redirect reaches the client as a 308 to the path the route
matches (`handleRequest_redirect`).
-/

namespace Myth

/-! ## The `Allow` header -/

namespace AttemptedMethods

/-- `self & Self::$method != Self::NONE`. -/
def has (attempted : AttemptedMethods) (method : Method) : Bool :=
  decide (attempted &&& ofMethod method ≠ NONE)

/-- The methods `into_header_value` checks, in its order. -/
def standardMethods : List Method :=
  [.get, .post, .put, .delete, .head, .options, .connect, .patch, .trace]

/-- One `check_method!`: the method's name, after ", " unless it is the first. -/
def checkMethod (attempted : AttemptedMethods) (string : String) (method : Method) : String :=
  if attempted.has method then (if string.isEmpty then string else string ++ ", ") ++ method.asStr
  else string

/-- `AttemptedMethods::into_header_value`. -/
def intoHeaderValue (attempted : AttemptedMethods) : HeaderValue :=
  .ofString (standardMethods.foldl (checkMethod attempted) "")

theorem bits_or_eq_zero {a b : BitVec 16} : a ||| b = 0#16 ↔ a = 0#16 ∧ b = 0#16 := by
  constructor
  · intro h
    have hi := fun i => congrArg (BitVec.getLsbD · i) h
    simp only [BitVec.getLsbD_or, BitVec.getLsbD_zero, Bool.or_eq_false_iff] at hi
    exact ⟨BitVec.eq_of_getLsbD_eq fun i => by simp [(hi i).1],
      BitVec.eq_of_getLsbD_eq fun i => by simp [(hi i).2]⟩
  · rintro ⟨rfl, rfl⟩
    rfl

theorem bits_or_and (a b c : BitVec 16) : (a ||| b) &&& c = (a &&& c) ||| (b &&& c) := by
  ext i
  simp only [BitVec.getLsbD_and, BitVec.getLsbD_or, Bool.and_or_distrib_right]

theorem has_eq (a : AttemptedMethods) (method : Method) :
    a.has method = decide (a.bits &&& (ofMethod method).bits ≠ 0#16) := by
  have h : a &&& ofMethod method = NONE ↔ a.bits &&& (ofMethod method).bits = 0#16 :=
    ⟨congrArg bits, ext⟩
  simp only [has, ne_eq, h]

@[simp] theorem has_or (a b : AttemptedMethods) (method : Method) :
    (a ||| b).has method = (a.has method || b.has method) := by
  simp only [has_eq, bits_or, bits_or_and, ne_eq, bits_or_eq_zero, not_and_or, Bool.decide_or]

@[simp] theorem has_NONE (method : Method) : NONE.has method = false := by
  simp [has_eq, NONE]

/-- Only the nine standard methods have a bit, each its own. -/
@[simp] theorem has_ofMethod (method' method : Method) :
    (ofMethod method').has method = decide (method' = method ∧ method ∈ standardMethods) := by
  cases method' <;> cases method <;> first | decide | simp [has_eq, ofMethod, standardMethods, NONE]

theorem has_foldl (ms : List Method) (acc : AttemptedMethods) (method : Method) :
    (ms.foldl (fun a m => a ||| ofMethod m) acc).has method ↔
      acc.has method ∨ method ∈ ms ∧ method ∈ standardMethods := by
  induction ms generalizing acc with
  | nil => simp
  | cons m ms ih =>
    rw [List.foldl_cons, ih, has_or, has_ofMethod]
    simp only [Bool.or_eq_true, decide_eq_true_eq, List.mem_cons]
    constructor
    · rintro ((h | ⟨rfl, hs⟩) | h) <;> tauto
    · rintro (h | ⟨rfl | h, hs⟩) <;> tauto

theorem asStr_ne_empty {attempted : AttemptedMethods} {method : Method} (h : attempted.has method) :
    method.asStr ≠ "" := by
  cases method with
  | extension name => simp [has_eq, ofMethod, NONE] at h
  | _ => decide

/-- After a non-empty start, the steps append each attempted name after ", ". -/
theorem foldl_checkMethod_of_ne (attempted : AttemptedMethods) (ms : List Method) {acc : String}
    (hacc : acc ≠ "") :
    ms.foldl (checkMethod attempted) acc =
      String.intercalate.go acc ", " ((ms.filter attempted.has).map Method.asStr) := by
  induction ms generalizing acc with
  | nil => rfl
  | cons m ms ih =>
    have hempty : acc.isEmpty = false := Bool.eq_false_iff.mpr fun h => hacc ((String.isEmpty_iff _).mp h)
    by_cases hm : attempted.has m
    · rw [List.foldl_cons, checkMethod, if_pos hm, hempty, if_neg Bool.false_ne_true,
        ih (by simp [String.ext_iff, String.data_append, hacc])]
      simp [List.filter_cons, hm, String.intercalate.go]
    · rw [List.foldl_cons, checkMethod, if_neg hm, ih hacc]
      simp [List.filter_cons, hm]

theorem foldl_checkMethod (attempted : AttemptedMethods) (ms : List Method) :
    ms.foldl (checkMethod attempted) "" =
      String.intercalate ", " ((ms.filter attempted.has).map Method.asStr) := by
  induction ms with
  | nil => rfl
  | cons m ms ih =>
    by_cases hm : attempted.has m
    · rw [List.foldl_cons, checkMethod, if_pos hm, if_pos ((String.isEmpty_iff _).mpr rfl),
        String.empty_append,
        foldl_checkMethod_of_ne attempted ms (asStr_ne_empty hm)]
      simp [List.filter_cons, hm, String.intercalate]
    · rw [List.foldl_cons, checkMethod, if_neg hm, ih]
      simp [List.filter_cons, hm]

/-- `Allow` names the attempted methods in the order of `standardMethods`, separated
by ", ". -/
theorem intoHeaderValue_eq (attempted : AttemptedMethods) :
    attempted.intoHeaderValue =
      .ofString (String.intercalate ", " ((standardMethods.filter attempted.has).map Method.asStr)) := by
  rw [intoHeaderValue, foldl_checkMethod]

end AttemptedMethods

/-! ## Responses -/

/-- `Forwarding::into_response`. -/
def Forwarding.intoResponse : Forwarding → Response
  | .notFound => defaultResponse StatusCode.NOT_FOUND
  | .methodNotAllowed attempted =>
    (defaultResponse StatusCode.METHOD_NOT_ALLOWED).withHeader ALLOW attempted.intoHeaderValue

/-- `FilterError::into_response` of `json::Error`, and of `form::urlencoded::Error`,
which is the same. -/
def BodyFormatError.intoResponse : BodyFormatError → Response
  | .noContentType | .wrongContentType _ => defaultResponse StatusCode.UNSUPPORTED_MEDIA_TYPE
  | .reading _ | .deserializing _ => defaultResponse StatusCode.BAD_REQUEST

/-- `FilterError::into_response` of a boxed error, or the message it panics with;
`otherResponse` is the `into_response` of the error types outside the library. -/
def BoxedFilterError.intoResponse (otherResponse : String → String → Response) :
    BoxedFilterError → Except String Response
  | .redirect location =>
    if location.all isValidHeaderByte then
      .ok ((defaultResponse StatusCode.PERMANENT_REDIRECT).withHeader LOCATION ⟨location⟩)
    else .error "redirect location was not valid"
  | .forwardParam => .error "not implemented"
  | .headerMissing => .error "internal error: entered unreachable code: Should have been recovered"
  | .body _ => .ok (defaultResponse StatusCode.INTERNAL_SERVER_ERROR)
  | .contentLength _ => .ok (defaultResponse StatusCode.PAYLOAD_TOO_LARGE)
  | .invalidIfUnmodifiedSince _ => .ok (defaultResponse StatusCode.BAD_REQUEST)
  | .json error | .urlencoded error => .ok error.intoResponse
  | .other typeName message => .ok (otherResponse typeName message)

/-! ## Serving a request -/

/-- A filter `handle_requests` serves: `Input = ()` and `Success = (R,)`. -/
structure Endpoint where
  filter : Filter
  wellTyped : filter.WellTyped
  inputArity_eq : filter.inputArity = 0
  successArity_eq : filter.successArity = 1

namespace Endpoint

variable (e : Endpoint) (respond : Val → Response) (otherResponse : String → String → Response)
  (request : Request) (events : List BodyEvent)

theorem success_length {success : Tuple}
    (h : (e.filter.execute request (.new events) []).outcome = .success success) :
    success.length = 1 := by
  have typed := e.filter.execute_typed request e.wellTyped (.new events) [] e.inputArity_eq.symm
  rwa [h, e.successArity_eq] at typed

/-- The service of `handle_requests` on a request whose body stream is `events`, for
the responder's `into_response` as `respond`. -/
def handleRequest : Except String Response :=
  match h : (e.filter.execute request (.new events) []).outcome with
  | .success success =>
    .ok (respond (success.get ⟨0, by rw [e.success_length request events h]; exact Nat.one_pos⟩))
  | .error error => error.intoResponse otherResponse
  | .forward _ forwarding => .ok forwarding.intoResponse

theorem handleRequest_of_success {responder : Val}
    (h : (e.filter.execute request (.new events) []).outcome = .success [responder]) :
    e.handleRequest respond otherResponse request events = .ok (respond responder) := by
  unfold handleRequest
  split <;> simp_all

theorem handleRequest_of_error {error : BoxedFilterError}
    (h : (e.filter.execute request (.new events) []).outcome = .error error) :
    e.handleRequest respond otherResponse request events = error.intoResponse otherResponse := by
  unfold handleRequest
  split <;> simp_all

theorem handleRequest_of_forward {input : Tuple} {forwarding : Forwarding}
    (h : (e.filter.execute request (.new events) []).outcome = .forward input forwarding) :
    e.handleRequest respond otherResponse request events = .ok forwarding.intoResponse := by
  unfold handleRequest
  split <;> simp_all

/-! ## Two runs of the service -/

/-- `define_method`'s filter, followed by any filter, forwards on another method. -/
theorem execute_methodIs_and_of_ne {method : Method} (hm : request.method ≠ method) (f : Filter)
    (st : RequestState) (input : Tuple) :
    ((Filter.and (.leaf (.methodIs method)) f).execute request st input).outcome =
      .forward input (.methodNotAllowed (.ofMethod method)) := by
  simp [Filter.execute, Leaf.execute, readyOutcome, Leaf.methodFilter, hm, Outcome.mapInput]

theorem foldl_combine_methodNotAllowed {α : Type} (method : α → Method) (xs : List α)
    (acc : AttemptedMethods) :
    (xs.map fun x => Forwarding.methodNotAllowed (.ofMethod (method x))).foldl Forwarding.combine
        (.methodNotAllowed acc) =
      .methodNotAllowed ((xs.map method).foldl (fun a m => a ||| .ofMethod m) acc) := by
  induction xs generalizing acc with
  | nil => rfl
  | cons x xs ih => exact ih _

/-- **A router by method answers 405 with the methods it routes.**  When every
branch of an endpoint's `or()` tree starts with `get()`, `post()`, … and the request's
method is none of theirs, the service answers 405 with an `Allow` header that names
each of the branches' methods once, in the order of `standardMethods`. -/
theorem handleRequest_methodNotAllowed (routes : List (Method × Filter))
    (hbranches : e.filter.orBranches =
      routes.map fun route => .and (.leaf (.methodIs route.1)) route.2)
    (hmethod : ∀ route ∈ routes, request.method ≠ route.1) :
    e.handleRequest respond otherResponse request events =
      .ok ((defaultResponse StatusCode.METHOD_NOT_ALLOWED).withHeader ALLOW
        (.ofString (String.intercalate ", "
          ((AttemptedMethods.standardMethods.filter (· ∈ routes.map Prod.fst)).map Method.asStr)))) := by
  obtain ⟨first, rest, rfl⟩ : ∃ first rest, routes = first :: rest := by
    cases routes with
    | nil => exact absurd hbranches (Filter.orBranches_ne_nil e.filter)
    | cons first rest => exact ⟨first, rest, rfl⟩
  have hforward := Filter.orFallback_forward request (RequestState.new events).currentPathIndex
    (fun route => .and (.leaf (.methodIs route.1)) route.2)
    (fun route => .methodNotAllowed (.ofMethod route.1)) (first :: rest)
    (fun route hr st input => execute_methodIs_and_of_ne request (hmethod route hr) route.2 st input)
    .notFound (.new events) []
  rw [← hbranches, ← Filter.execute_outcome_orFallback] at hforward
  rw [handleRequest_of_forward e respond otherResponse request events hforward,
    List.map_cons, List.foldl_cons, Forwarding.notFound_combine,
    foldl_combine_methodNotAllowed Prod.fst, Forwarding.intoResponse,
    AttemptedMethods.intoHeaderValue_eq]
  congr 5
  refine List.filter_congr fun m hm => ?_
  rw [Bool.eq_iff_iff, AttemptedMethods.has_foldl, AttemptedMethods.has_ofMethod]
  simp only [decide_eq_true_eq, List.map_cons, List.mem_cons, hm, and_true]
  exact or_congr_left eq_comm

/-- `get().and(any().handle(…)).or(post().and(any().handle(…)))` answers `PUT /` with 405
and `Allow: GET, POST`. -/
theorem handleRequest_methodNotAllowed_put :
    let routes : List (Method × Filter) :=
      [(.get, .handle (.leaf .any) fun _ => .ok (.str "get")),
        (.post, .handle (.leaf .any) fun _ => .ok (.str "post"))]
    let e : Endpoint :=
      ⟨.or (.and (.leaf (.methodIs .get)) (.handle (.leaf .any) fun _ => .ok (.str "get")))
          (.and (.leaf (.methodIs .post)) (.handle (.leaf .any) fun _ => .ok (.str "post"))),
        ⟨rfl, rfl, ⟨rfl, trivial, trivial⟩, ⟨rfl, trivial, trivial⟩⟩, rfl, rfl⟩
    let request : Request := ⟨.put, [47], []⟩
    (e.filter.orBranches = routes.map (fun route => .and (.leaf (.methodIs route.1)) route.2) ∧
      ∀ route ∈ routes, request.method ≠ route.1) ∧
    e.handleRequest (fun _ => defaultResponse StatusCode.OK)
        (fun _ _ => defaultResponse StatusCode.INTERNAL_SERVER_ERROR) request [] =
      .ok ((defaultResponse StatusCode.METHOD_NOT_ALLOWED).withHeader ALLOW (.ofString "GET, POST")) := by
  intro routes e request
  have hm : ∀ route ∈ routes, request.method ≠ route.1 := by decide
  exact ⟨⟨rfl, hm⟩, (handleRequest_methodNotAllowed e _ _ request [] routes rfl hm).trans rfl⟩

/-- **The trailing-slash redirect reaches the client.**  Let an endpoint's filter hold a
route of steps ended by `end()`, in a context that hands the redirect on and runs the
route from the start of the path.  For every path the route matches, whose bytes a
header value may hold, the service answers the path with a `/` appended by a 308 whose
`Location` is the path. -/
theorem handleRequest_redirect (ctx : Context) (first : Step) (rest : List Step)
    (hfilter : e.filter = ctx.plug (route first rest)) (method : Method) (headers : HeaderMap)
    (location : List UInt8) (st : RequestState)
    (ht : ∀ frame ∈ ctx, frame.Transparent (.redirect location))
    (hreach : Context.reach ⟨method, location ++ [47], headers⟩ ctx (route first rest) (.new events) [] =
      some (st, []))
    (h0 : st.currentPathIndex = 0) (success : Tuple)
    (hmatch : ((route first rest).execute ⟨method, location, headers⟩ (.new events) []).outcome =
      .success success)
    (hvalid : location.all isValidHeaderByte) :
    e.handleRequest respond otherResponse ⟨method, location ++ [47], headers⟩ events =
      .ok ((defaultResponse StatusCode.PERMANENT_REDIRECT).withHeader LOCATION ⟨location⟩) := by
  have hroute := route_redirect_of_success first rest method headers rfl h0 hmatch
  have hhole : (route first rest).execute ⟨method, location ++ [47], headers⟩ st [] =
      ⟨((route first rest).execute ⟨method, location ++ [47], headers⟩ st []).requestState,
        .error (.redirect location)⟩ := by
    rw [← hroute]
  have hplug := Context.plug_error _ ctx (route first rest) ht hreach hhole
  rw [handleRequest_of_error e respond otherResponse _ events (by rw [hfilter, hplug]),
    BoxedFilterError.intoResponse, if_pos hvalid]

/-- `literal("a").and(end()).handle(…)` answers `/a/` with a 308 to `/a`. -/
theorem handleRequest_redirect_literal :
    let first := Step.literal ⟨"a", by decide, by decide⟩
    let func : Tuple → Except BoxedFilterError Val := fun _ => .ok (.str "a")
    let e : Endpoint := ⟨.handle (route first []) func, ⟨rfl, trivial, trivial⟩, rfl, rfl⟩
    let ctx : Context := [.handle func]
    (e.filter = ctx.plug (route first []) ∧
      (∀ frame ∈ ctx, frame.Transparent (.redirect [47, 97])) ∧
      Context.reach ⟨.get, [47, 97] ++ [47], []⟩ ctx (route first []) (.new []) [] =
        some (.new [], []) ∧
      (RequestState.new []).currentPathIndex = 0 ∧
      ((route first []).execute ⟨.get, [47, 97], []⟩ (.new []) []).outcome = .success [] ∧
      [(47 : UInt8), 97].all isValidHeaderByte) ∧
    e.handleRequest (fun _ => defaultResponse StatusCode.OK)
        (fun _ _ => defaultResponse StatusCode.INTERNAL_SERVER_ERROR) ⟨.get, [47, 97] ++ [47], []⟩ [] =
      .ok ((defaultResponse StatusCode.PERMANENT_REDIRECT).withHeader LOCATION ⟨[47, 97]⟩) := by
  intro first func e ctx
  have ht : ∀ frame ∈ ctx, frame.Transparent (.redirect [47, 97]) := by decide
  exact ⟨⟨rfl, ht, rfl, rfl, rfl, rfl⟩, handleRequest_redirect e _ _ [] ctx first [] rfl .get []
    [47, 97] (.new []) ht rfl rfl [] rfl rfl⟩

end Endpoint

end Myth
