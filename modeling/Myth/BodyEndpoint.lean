import Myth.Service
import Myth.BodyFormat

/-!
# A body endpoint through the service (`json.rs`, `form/urlencoded.rs`, `service.rs`)

An endpoint `json::request::<T>().handle(handler)`, or its `form::urlencoded` twin, as
`handle_requests` serves it: the response follows the three checks of the body filter
(`bodyRequest_execute`) and the `into_response` of the format's error.

    handleRequest_bodyRequest : `415 Unsupported Media Type` for another media type,
                                `400 Bad Request` for a failed stream or a body that
                                does not deserialize, else the handler's response

The body is awaited from a fresh state, so it is the stream's first error or all its
chunks (`BodyState.awaitBody_pending`).
-/

namespace Myth


/-- The handler of `content_type()` in a body filter succeeds only with `()`. -/
theorem contentTypeHandler_ok {subtype : String} {wrap : BodyFormatError → BoxedFilterError} {success : Tuple}
    {value : Val} (h : contentTypeHandler subtype wrap success = .ok value) : value = .tuple [] := by
  unfold contentTypeHandler at h
  split at h
  · split_ifs at h
    cases h
    rfl
  all_goals cases h

/-- `json::request()` and `form::urlencoded::request()` meet the code's trait bounds. -/
theorem bodyRequest_wellTyped (subtype : String) (wrap : BodyFormatError → BoxedFilterError)
    (mimeFromStr : String → Option Mime) (fromReader : BytesBuf → Except String Val) :
    (bodyRequest subtype wrap mimeFromStr fromReader).WellTyped := by
  refine ⟨rfl, ⟨rfl, ?_, rfl, ?_, trivial⟩, rfl, trivial⟩
  · intro request st input success h
    rw [Filter.execute_handle_of_success (execute_contentType mimeFromStr request st input)] at h
    obtain ⟨value, hr, rfl⟩ := Outcome.ofResult_map_eq_success.mp h
    exact ⟨[], by rw [contentTypeHandler_ok hr], rfl⟩
  · intro request st input success h
    simp only [Filter.execute, Leaf.execute, Filter.valueOptional] at h
    split at h <;> simp only [Except.map, Outcome.ofResult, Outcome.success.injEq] at h <;> exact ⟨_, h.symm, rfl⟩

namespace Endpoint

/-- **A body endpoint's responses.**  For every endpoint whose filter is
`json::request::<T>().handle(handler)` or `form::urlencoded::request::<T>().handle(handler)`,
every request and body stream, `handle_requests` answers `415 Unsupported Media Type`
when the `Content-Type` is not the format's, whatever the body; `400 Bad Request`
when the stream fails or its chunks do not deserialize; and otherwise what the handler
makes of the deserialized value. -/
theorem handleRequest_bodyRequest (e : Endpoint) (subtype : String) {wrap : BodyFormatError → BoxedFilterError}
    (hwrap : wrap = .json ∨ wrap = .urlencoded) (mimeFromStr : String → Option Mime)
    (fromReader : BytesBuf → Except String Val) (handler : Tuple → Except BoxedFilterError Val)
    (hfilter : e.filter = .handle (bodyRequest subtype wrap mimeFromStr fromReader) handler)
    (respond : Val → Response) (otherResponse : String → String → Response) (request : Request)
    (events : List BodyEvent) :
    e.handleRequest respond otherResponse request events =
      if acceptsMime subtype mimeFromStr request then
        match firstError events with
        | some _ => .ok (defaultResponse StatusCode.BAD_REQUEST)
        | none =>
          match fromReader ⟨chunksOf events, totalLen (chunksOf events)⟩ with
          | .error _ => .ok (defaultResponse StatusCode.BAD_REQUEST)
          | .ok value =>
            match handler [value] with
            | .ok responder => .ok (respond responder)
            | .error error => error.intoResponse otherResponse
      else .ok (defaultResponse StatusCode.UNSUPPORTED_MEDIA_TYPE) := by
  have hinto : ∀ error, (wrap error).intoResponse otherResponse = .ok error.intoResponse := by
    rcases hwrap with rfl | rfl <;> intro error <;> rfl
  have hout : (e.filter.execute request (.new events) []).outcome =
      match bodyRequestSpec subtype wrap mimeFromStr fromReader request (.pending events [] 0) with
      | .success success => .ofResult ((handler success).map fun ok => [ok])
      | o => o := by
    rw [hfilter, Filter.execute_handle_outcome, bodyRequest_execute]
    rfl
  have herror : ∀ {error}, bodyRequestSpec subtype wrap mimeFromStr fromReader request (.pending events [] 0) =
      .error (wrap error) → e.handleRequest respond otherResponse request events = .ok error.intoResponse :=
    fun h => by rw [e.handleRequest_of_error respond otherResponse request events (by rw [hout, h]), hinto]
  unfold bodyRequestSpec at herror hout
  rw [BodyState.awaitBody_pending, List.nil_append, Nat.zero_add] at herror hout
  split_ifs at herror hout ⊢
  · cases hfe : firstError events with
    | some message =>
      simp only [hfe] at herror ⊢
      exact herror rfl
    | none =>
      cases hr : fromReader ⟨chunksOf events, totalLen (chunksOf events)⟩ with
      | error message =>
        simp only [hfe, hr, Except.mapError, Except.map, Outcome.ofResult] at herror ⊢
        exact herror rfl
      | ok value =>
        simp only [hfe, hr, Except.mapError, Except.map, Outcome.ofResult] at hout ⊢
        cases hh : handler [value] with
        | ok responder =>
          exact e.handleRequest_of_success respond otherResponse request events (by rw [hout, hh])
        | error error =>
          exact e.handleRequest_of_error respond otherResponse request events (by rw [hout, hh])
  · rw [herror rfl]
    rcases request.header CONTENT_TYPE with _ | value <;> rfl

/-- A JSON endpoint answers a request without `Content-Type` with `415`. -/
theorem handleRequest_bodyRequest_no_content_type :
    let mimeFromStr : String → Option Mime := fun _ => some ⟨"application", "json"⟩
    let fromReader : BytesBuf → Except String Val := fun _ => .ok (.int 0)
    let handler : Tuple → Except BoxedFilterError Val := fun _ => .ok (.str "ok")
    let e : Endpoint := ⟨.handle (Json.request mimeFromStr fromReader) handler,
      bodyRequest_wellTyped "json" .json mimeFromStr fromReader, rfl, rfl⟩
    ((BoxedFilterError.json = .json ∨ BoxedFilterError.json = .urlencoded) ∧
      e.filter = .handle (bodyRequest "json" .json mimeFromStr fromReader) handler) ∧
    e.handleRequest (fun _ => defaultResponse StatusCode.OK) (fun _ _ => defaultResponse StatusCode.INTERNAL_SERVER_ERROR)
        ⟨.post, [47], []⟩ [.data [123, 125]] = .ok (defaultResponse StatusCode.UNSUPPORTED_MEDIA_TYPE) := by
  intro mimeFromStr fromReader handler e
  exact ⟨⟨.inl rfl, rfl⟩, (handleRequest_bodyRequest e "json" (.inl rfl) mimeFromStr fromReader handler rfl
    _ _ ⟨.post, [47], []⟩ [.data [123, 125]]).trans rfl⟩

end Endpoint

end Myth
