import Myth.Library

/-!
# Request bodies in a format (`json.rs`, `form/urlencoded.rs`)

`json::request::<T>()` and `form::urlencoded::request::<T>()` are one filter over three
values of their own: the media subtype they accept, their error type, and the format's
`from_reader`.  `bodyRequest` is that filter, built as the code builds it:
`content_type()` checked by a handler and untupled, then `body::all()` whose
`body::Error` a `recover()` turns into the format's `Reading` error, then the body
deserialized by a `handle()`.

Run, the filter checks the media type, then waits for the body, then deserializes it:
`bodyRequest_execute` equates its run with `bodyRequestSpec`, those three checks in
turn, and the state it hands back is the one it was given with the body polled, or
untouched when the media type is refused.
-/

namespace Myth

/-- `value.cloned().map(Error::WrongContentType).unwrap_or(Error::NoContentType)`. -/
def contentTypeError : Val → BodyFormatError
  | .option (some (.headerValue value)) => .wrongContentType value
  | _ => .noContentType

/-- The handler both formats give `content_type()`: `Ok(())` for the media type
`application/<subtype>`, else the format's error for the header. -/
def contentTypeHandler (subtype : String) (wrap : BodyFormatError → BoxedFilterError) :
    Tuple → Except BoxedFilterError Val
  | [.option (some (.mime mime)), value] =>
    if mime.type_ = "application" ∧ mime.subtype = subtype then .ok (.tuple [])
    else .error (wrap (contentTypeError value))
  | [_, value] => .error (wrap (contentTypeError value))
  | _ => .error (wrap .noContentType)

/-- The closure `|error: body::Error| async move { Err(Error::Reading(error).into()) }`. -/
def readingError (wrap : BodyFormatError → BoxedFilterError) : BoxedFilterError →
    Except BoxedFilterError Val
  | .body error => .error (wrap (.reading error))
  | error => .error error

/-- The closure `|readable| … from_reader(readable).map_err(|error| Error::Deserializing(error).into())`. -/
def deserializeBody (wrap : BodyFormatError → BoxedFilterError)
    (fromReader : BytesBuf → Except String Val) : Tuple → Except BoxedFilterError Val
  | [.bytesBuf readable] => (fromReader readable).mapError (wrap ∘ .deserializing)
  | _ => (fromReader ⟨[], 0⟩).mapError (wrap ∘ .deserializing)

/-- `json::request` and `form::urlencoded::request`, for the `Content-Type` subtype they
accept, the constructor `wrap` of their error type, `Mime::from_str` as `mimeFromStr`,
and the format's `from_reader` into `T` as `fromReader`. -/
def bodyRequest (subtype : String) (wrap : BodyFormatError → BoxedFilterError)
    (mimeFromStr : String → Option Mime) (fromReader : BytesBuf → Except String Val) : Filter :=
  .handle
    (.and (.untuple 0 (.handle (.contentType mimeFromStr) (contentTypeHandler subtype wrap)))
      (.recover (.leaf .takeBody) (.error .body) (readingError wrap)))
    (deserializeBody wrap fromReader)

/-- `json::request::<T>()`. -/
def Json.request (mimeFromStr : String → Option Mime) (fromReader : BytesBuf → Except String Val) :
    Filter :=
  bodyRequest "json" .json mimeFromStr fromReader

/-- `form::urlencoded::request::<T>()`. -/
def Urlencoded.request (mimeFromStr : String → Option Mime)
    (fromReader : BytesBuf → Except String Val) : Filter :=
  bodyRequest "x-www-form-urlencoded" .urlencoded mimeFromStr fromReader

/-! ## The three checks -/

section Spec

variable (subtype : String) (wrap : BodyFormatError → BoxedFilterError)
  (mimeFromStr : String → Option Mime) (fromReader : BytesBuf → Except String Val)

/-- Whether the request's `Content-Type` reads as `application/<subtype>`. -/
def acceptsMime (request : Request) : Bool :=
  match (request.header CONTENT_TYPE).bind fun value => value.toStr.bind mimeFromStr with
  | some mime => decide (mime.type_ = "application" ∧ mime.subtype = subtype)
  | none => false

/-- A body filter, read as three checks in turn: the media type, then the body, then the
format. -/
def bodyRequestSpec (request : Request) (body : BodyState) : Outcome Tuple Tuple :=
  if acceptsMime subtype mimeFromStr request then
    match body.awaitBody.2 with
    | .ok (bytes, len) =>
      .ofResult (((fromReader ⟨bytes, len⟩).mapError (wrap ∘ .deserializing)).map fun value => [value])
    | .error error => .error (wrap (.reading error))
  else .error (wrap (((request.header CONTENT_TYPE).map .wrongContentType).getD .noContentType))

/-! ## The run is the three checks -/

/-- `content_type()` hands back the state it was given, with the header and its media
type. -/
theorem execute_contentType (request : Request) (st : RequestState) (input : Tuple) :
    (Filter.contentType mimeFromStr).execute request st input =
      ⟨st, .success [.option (((request.header CONTENT_TYPE).bind fun value =>
          value.toStr.bind mimeFromStr).map .mime),
        .option ((request.header CONTENT_TYPE).map .headerValue)]⟩ := by
  simp only [Filter.contentType, Filter.execute, Filter.valueOptional, Leaf.execute]
  split
  · rename_i value heq
    simp only [List.cons.injEq, Val.option.injEq, Option.map_eq_some', Val.headerValue.injEq,
      and_true] at heq
    obtain ⟨v, hv, rfl⟩ := heq
    simp [hv, RequestOutcome.map, Outcome.map, Tuple.intoInner, Outcome.ofResult, Except.map]
  · rename_i hne
    rcases h : request.header CONTENT_TYPE with _ | value
    · simp [h, RequestOutcome.map, Outcome.map, Tuple.intoInner, Outcome.ofResult, Except.map]
    · exact absurd (by rw [h]; rfl) (hne value)

/-- The checked and untupled `content_type()` succeeds on the accepted media type, and
otherwise fails with the format's error for the header. -/
theorem execute_checkContentType (request : Request) (st : RequestState) :
    (Filter.untuple 0 (.handle (.contentType mimeFromStr) (contentTypeHandler subtype wrap))).execute
        request st [] =
      ⟨st, if acceptsMime subtype mimeFromStr request then .success []
        else .error (wrap (((request.header CONTENT_TYPE).map .wrongContentType).getD .noContentType))⟩ := by
  rw [show ∀ g : Filter, (Filter.untuple 0 g).execute request st [] =
    (g.execute request st []).map Tuple.intoInner from fun _ => rfl,
    Filter.execute_handle_of_success (execute_contentType mimeFromStr request st []), acceptsMime]
  rcases request.header CONTENT_TYPE with _ | value
  · rfl
  · rcases hm : value.toStr.bind mimeFromStr with _ | mime
    · simp [hm, contentTypeHandler, contentTypeError, RequestOutcome.map, Outcome.map, Except.map,
        Outcome.ofResult]
    · by_cases hc : mime.type_ = "application" ∧ mime.subtype = subtype <;>
        simp [hm, hc, contentTypeHandler, contentTypeError, RequestOutcome.map, Outcome.map,
          Tuple.intoInner, Except.map, Outcome.ofResult]

/-- `body::all()` under its `recover()`: the body polled to the end, and a failed body
turned into the format's `Reading` error. -/
theorem execute_recoverBody (request : Request) (st : RequestState) (input : Tuple) :
    (Filter.recover (.leaf .takeBody) (.error .body) (readingError wrap)).execute request st input =
      ⟨{ st with body := st.body.awaitBody.1 }, match st.body.awaitBody.2 with
        | .ok (bytes, len) => .success [.bytesBuf ⟨bytes, len⟩]
        | .error error => .error (wrap (.reading error))⟩ := by
  simp only [Filter.execute, Leaf.execute]
  rcases st.body.awaitBody.2 with error | ⟨bytes, len⟩
  · simp [Recoverable.recover, readingError, BoxedFilterError.typeId, Outcome.ofResult, Except.map]
  · rfl

/-- **A body filter is its three checks.**  `json::request` and
`form::urlencoded::request` check the media type, then wait for the body, then
deserialize it, as `bodyRequestSpec` does; they hand back the state they were given,
with the body polled when the media type is accepted. -/
theorem bodyRequest_execute (request : Request) (st : RequestState) (input : Tuple) :
    (bodyRequest subtype wrap mimeFromStr fromReader).execute request st input =
      ⟨if acceptsMime subtype mimeFromStr request then { st with body := st.body.awaitBody.1 } else st,
        bodyRequestSpec subtype wrap mimeFromStr fromReader request st.body⟩ := by
  have hc := execute_checkContentType subtype wrap mimeFromStr request st
  rw [bodyRequestSpec]
  by_cases ha : acceptsMime subtype mimeFromStr request
  · rw [if_pos ha] at hc
    have hbody := execute_recoverBody wrap request st input
    rw [bodyRequest, if_pos ha, if_pos ha]
    rcases hb : st.body.awaitBody.2 with error | ⟨bytes, len⟩ <;> rw [hb] at hbody
    · exact Filter.execute_handle_of_error ((Filter.execute_and_of_success hc).trans (by rw [hbody]; rfl))
    · exact (Filter.execute_handle_of_success ((Filter.execute_and_of_success hc).trans
        (by rw [hbody]; rfl))).trans rfl
  · rw [if_neg ha] at hc
    rw [bodyRequest, if_neg ha, if_neg ha, Filter.execute_handle_of_error (Filter.execute_and_of_error hc)]

/-- A body filter's three checks never forward, and fail only with the format's
error. -/
theorem bodyRequestSpec_cases (request : Request) (body : BodyState) :
    (∃ s, bodyRequestSpec subtype wrap mimeFromStr fromReader request body = .success s) ∨
      ∃ e, bodyRequestSpec subtype wrap mimeFromStr fromReader request body = .error (wrap e) := by
  unfold bodyRequestSpec
  split
  · split
    · rcases fromReader _ with message | value
      · exact .inr ⟨_, rfl⟩
      · exact .inl ⟨_, rfl⟩
    · exact .inr ⟨_, rfl⟩
  · exact .inr ⟨_, rfl⟩

theorem bodyRequest_not_forward (request : Request) (st : RequestState) (input : Tuple) :
    (∀ c r, ((bodyRequest subtype wrap mimeFromStr fromReader).execute request st input).outcome ≠
      .forward c r) ∧
    ∀ e, ((bodyRequest subtype wrap mimeFromStr fromReader).execute request st input).outcome =
      .error e → ∃ e', e = wrap e' := by
  rw [bodyRequest_execute]
  rcases bodyRequestSpec_cases subtype wrap mimeFromStr fromReader request st.body with
    ⟨s, h⟩ | ⟨e', h⟩ <;> simp only [h] <;> simp

/-- A JSON body sent without `Content-Type` is refused with `NoContentType`. -/
example :
    ((Json.request (fun _ => some ⟨"application", "json"⟩) fun _ => .ok (.int 0)).execute
      ⟨.post, [47], []⟩ (.new [.data [123, 125]]) []).outcome = .error (.json .noContentType) := rfl

end Spec

/-! ## Which errors reach the response -/

/-- **The library's filters fail only as documented.**  `path::param::<T>()` and
`header::value(name)` succeed or forward with `NotFound`, so their private errors,
whose `into_response` is unreachable, never escape; `json::request` and
`form::urlencoded::request` never forward, and fail only with their own error type,
which one `recover()` for that type catches. -/
theorem library_errors_recoverable (fromStr : String → Option Val) (name : HeaderName)
    (mimeFromStr : String → Option Mime) (fromReader : BytesBuf → Except String Val)
    (request : Request) (st : RequestState) (input : Tuple) :
    (∀ f ∈ [Filter.param fromStr, Filter.value name],
      (∃ s, (f.execute request st input).outcome = .success s) ∨
        ∃ c, (f.execute request st input).outcome = .forward c .notFound) ∧
    (∀ c r, ((Json.request mimeFromStr fromReader).execute request st input).outcome ≠
      .forward c r) ∧
    (∀ e, ((Json.request mimeFromStr fromReader).execute request st input).outcome = .error e →
      (Recoverable.error .json).Matches e) ∧
    (∀ c r, ((Urlencoded.request mimeFromStr fromReader).execute request st input).outcome ≠
      .forward c r) ∧
    (∀ e, ((Urlencoded.request mimeFromStr fromReader).execute request st input).outcome =
      .error e → (Recoverable.error .urlencoded).Matches e) := by
  have hjson := bodyRequest_not_forward "json" .json mimeFromStr fromReader request st input
  have hform := bodyRequest_not_forward "x-www-form-urlencoded" .urlencoded mimeFromStr fromReader
    request st input
  refine ⟨?_, hjson.1, fun e he => ?_, hform.1, fun e he => ?_⟩
  · simp only [List.mem_cons, List.mem_singleton, List.not_mem_nil, or_false]
    rintro f (rfl | rfl)
    · exact Filter.param_succeeds_or_notFound fromStr request st input
    · rw [Filter.execute_value]
      rcases request.header name with _ | v <;> simp
  · obtain ⟨e', rfl⟩ := hjson.2 e he
    rfl
  · obtain ⟨e', rfl⟩ := hform.2 e he
    rfl

end Myth
