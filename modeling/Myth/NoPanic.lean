import Myth.BodyEndpoint

/-!
# `handle_requests` never panics: `errors.rs`, `path.rs`, `header.rs`

`handle_requests` answers a request with `into_response` of its filter's outcome, and
three `into_response`s panic: `ForwardParam`'s (`unimplemented!()`), `HeaderMissing`'s
(`unreachable!()`), and `Redirect`'s when its location is not a valid header value.
A filter built with the library's public API (`Filter.Safe`) reaches none of them.  The
first two types are private to `path::param` and `header::value`, which recover them
themselves; `Redirect`'s field is private, so only `path::end` builds one, from a prefix
of the request's path, and the path of a `Uri` is made of bytes a header value may hold.

    failsWith_and, …          : an error of a combinator is an error of a filter under it,
                                or one that a function given to it returns
    Leaf.harmless_of_execute  : a leaf fails only with a public error, or with a redirect
                                to a prefix of the path
    Filter.Safe.harmless      : so does every filter built with the public API
    handleRequest_never_panics : so `handle_requests` answers every such request
-/

namespace Myth

namespace BoxedFilterError

/-- The errors code outside the library can build: all but the private `ForwardParam`
and `HeaderMissing`, and `Redirect`, whose field is private. -/
def Public : BoxedFilterError → Prop
  | .redirect _ | .forwardParam | .headerMissing => False
  | _ => True

/-- The errors a run on `request` may fail with: a public error, or a redirect to a
prefix of the request's path. -/
def Harmless (request : Request) (error : BoxedFilterError) : Prop :=
  error.Public ∨ ∃ n, error = .redirect (request.fullPath.take n)

/-- A harmless error's `into_response` does not panic when the path is made of bytes a
header value may hold. -/
theorem intoResponse_ok_of_harmless (otherResponse : String → String → Response) {request : Request}
    {error : BoxedFilterError} (h : error.Harmless request) (hpath : request.fullPath.all isValidHeaderByte) :
    ∃ response, error.intoResponse otherResponse = .ok response := by
  rcases h with hpublic | ⟨n, rfl⟩
  · cases error <;> first | exact hpublic.elim | exact ⟨_, rfl⟩
  · have hvalid : (request.fullPath.take n).all isValidHeaderByte := by
      simp only [List.all_eq_true] at hpath ⊢
      exact fun b hb => hpath b (List.mem_of_mem_take hb)
    exact ⟨_, by rw [intoResponse, if_pos hvalid]⟩

end BoxedFilterError

/-- `decoded_segment` succeeds or forwards. -/
theorem decodedSegment_ne_error {S : Type} (request : Request) (st : RequestState)
    (func : String → Option S) (error : BoxedFilterError) :
    (decodedSegment request st func).2 ≠ .error error := by
  unfold decodedSegment
  split
  · split <;> simp
  · simp

namespace Leaf

/-- A leaf fails only with a public error, or, `end()`, with a redirect to the path
before the cursor. -/
theorem harmless_of_execute {request : Request} (l : Leaf) {st : RequestState} {input : Tuple}
    {error : BoxedFilterError} (h : (l.execute request st input).outcome = .error error) :
    error.Harmless request := by
  cases l with
  | pathEnd =>
    replace h := Outcome.mapInput_eq_error.mp h
    unfold Myth.pathEnd at h
    split_ifs at h
    split at h <;> cases h
    exact .inr ⟨_, rfl⟩
  | takeBody =>
    simp only [execute] at h
    split at h <;> cases h
    exact .inl trivial
  | ifUnmodifiedSince p =>
    simp only [execute, ifUnmodifiedSinceOutcome] at h
    split_ifs at h
    split at h
    · split at h
      · split_ifs at h
      · cases h; exact .inl trivial
    · cases h
  | literal lit => exact absurd (Outcome.mapInput_eq_error.mp h) (decodedSegment_ne_error _ _ _ _)
  | paramStr => exact absurd (Outcome.mapInput_eq_error.mp h) (decodedSegment_ne_error _ _ _ _)
  | methodIs m =>
    replace h := Outcome.mapInput_eq_error.mp h
    unfold methodFilter at h
    split_ifs at h
  | tailPath =>
    replace h := Outcome.mapInput_eq_error.mp h
    unfold Myth.tailPath at h
    split at h <;> cases h
  | any | never | extract _ | tail | xContentTypeOptions => cases h

end Leaf

namespace Filter

/-- `error` is what some run of `f` on `request` fails with. -/
def FailsWith (request : Request) (f : Filter) (error : BoxedFilterError) : Prop :=
  ∃ st input, (f.execute request st input).outcome = .error error

variable {request : Request} {f g : Filter} {error : BoxedFilterError}

/-! ## Where an error comes from -/

theorem failsWith_and (h : FailsWith request (and f g) error) :
    FailsWith request f error ∨ FailsWith request g error := by
  obtain ⟨st, input, h⟩ := h
  rcases hf : f.execute request st [] with ⟨st₁, s | e | ⟨c, r⟩⟩ <;>
    simp only [execute, hf, RequestOutcome.map, Outcome.map_eq_error, Outcome.error.injEq, reduceCtorEq] at h
  · exact .inr ⟨st₁, input, h⟩
  · exact .inl ⟨st, [], by rw [hf, h]⟩

theorem failsWith_or (h : FailsWith request (or f g) error) :
    FailsWith request f error ∨ FailsWith request g error := by
  obtain ⟨st, input, h⟩ := h
  rcases hf : f.execute request st input with ⟨st₁, s | e | ⟨c, r⟩⟩ <;>
    simp only [execute, hf, Outcome.error.injEq, reduceCtorEq] at h
  · exact .inl ⟨st, input, by rw [hf, h]⟩
  · rcases hg : g.execute request (st₁.setPathIndex st.currentPathIndex) c with ⟨st₂, s' | e' | ⟨c', r'⟩⟩ <;>
      simp only [hg, Outcome.error.injEq, reduceCtorEq] at h
    exact .inr ⟨_, _, by rw [hg, h]⟩

theorem failsWith_consume (h : FailsWith request (consume f g) error) :
    FailsWith request f error ∨ FailsWith request g error := by
  obtain ⟨st, input, h⟩ := h
  rcases hf : f.execute request st [] with ⟨st₁, s | e | ⟨c, r⟩⟩ <;>
    simp only [execute, hf, RequestOutcome.mapInput, Outcome.mapInput_eq_error, Outcome.error.injEq,
      reduceCtorEq] at h
  · exact .inr ⟨st₁, _, h⟩
  · exact .inl ⟨st, [], by rw [hf, h]⟩

theorem failsWith_handle {func : Tuple → Except BoxedFilterError Val} (h : FailsWith request (handle f func) error) :
    FailsWith request f error ∨ ∃ success, func success = .error error := by
  obtain ⟨st, input, h⟩ := h
  rcases hf : f.execute request st input with ⟨st₁, s | e | ⟨c, r⟩⟩ <;>
    simp only [execute, hf, Outcome.ofResult_map_eq_error, Outcome.error.injEq, reduceCtorEq] at h
  · exact .inr ⟨s, h⟩
  · exact .inl ⟨st, input, by rw [hf, h]⟩

theorem failsWith_recover {E : Recoverable} {func : BoxedFilterError → Except BoxedFilterError Val}
    (h : FailsWith request (recover f E func) error) :
    FailsWith request f error ∨ ∃ recovered, FailsWith request f recovered ∧ func recovered = .error error := by
  obtain ⟨st, input, h⟩ := h
  rcases hf : f.execute request st input with ⟨st₁, s | e | ⟨c, r⟩⟩ <;>
    simp only [execute, hf, reduceCtorEq] at h
  by_cases hm : E.Matches e
  · simp only [Recoverable.recover_of_matches hm, Outcome.ofResult_map_eq_error] at h
    exact .inr ⟨e, ⟨st, input, by rw [hf]⟩, h⟩
  · simp only [Recoverable.recover_of_not_matches hm, Outcome.error.injEq] at h
    exact .inl ⟨st, input, by rw [hf, h]⟩

theorem failsWith_recoverForward {E : Recoverable} {func : BoxedFilterError → Except BoxedFilterError Forwarding}
    (h : FailsWith request (recoverForward f E func) error) :
    FailsWith request f error ∨ ∃ recovered, FailsWith request f recovered ∧ func recovered = .error error := by
  obtain ⟨st, input, h⟩ := h
  rcases hf : f.execute request st [] with ⟨st₁, s | e | ⟨c, r⟩⟩ <;>
    simp only [execute, hf, reduceCtorEq] at h
  by_cases hm : E.Matches e
  · simp only [Recoverable.recover_of_matches hm] at h
    refine .inr ⟨e, ⟨st, [], by rw [hf]⟩, ?_⟩
    split at h
    · cases h
    · rename_i heq; rw [heq]; cases h; rfl
  · simp only [Recoverable.recover_of_not_matches hm, Outcome.error.injEq] at h
    exact .inl ⟨st, [], by rw [hf, h]⟩

theorem failsWith_receive {n : Nat} (h : FailsWith request (receive n f) error) : FailsWith request f error := by
  obtain ⟨st, input, h⟩ := h
  rcases hrm : Tuple.remove f.inputArity input with ⟨received, rest⟩
  rcases hf : f.execute request st rest with ⟨st₁, s | e | ⟨c, r⟩⟩ <;>
    simp only [execute, hrm, hf, Outcome.error.injEq, reduceCtorEq] at h
  exact ⟨st, rest, by rw [hf, h]⟩

theorem failsWith_untuple {n : Nat} (h : FailsWith request (untuple n f) error) : FailsWith request f error := by
  obtain ⟨st, input, h⟩ := h
  exact ⟨st, input, Outcome.map_eq_error.mp h⟩

theorem failsWith_cors {c : Cors} (h : FailsWith request (cors c f) error) : FailsWith request f error := by
  obtain ⟨st, input, h⟩ := h
  simp only [execute] at h
  split at h
  · exact ⟨st, input, Outcome.map_eq_error.mp h⟩
  · cases h
  · exact ⟨st, input, Outcome.map_eq_error.mp h⟩

/-! ## Filters built with the public API -/

/-- The filters a program builds with the library's public API: its leaves, the library
filters `param` and `value` (which use the private errors inside), and the combinators
over such filters, where each function given to `handle` fails only with a public error,
and each given to `recover` or `recover_forward` with a public error or the one it
recovered (a `Redirect` cannot be cloned). -/
inductive Safe : Filter → Prop
  | leaf (l : Leaf) : Safe (leaf l)
  | param (fromStr : String → Option Val) : Safe (param fromStr)
  | value (name : HeaderName) : Safe (value name)
  | and {first second : Filter} : first.Safe → second.Safe → Safe (and first second)
  | or {first second : Filter} : first.Safe → second.Safe → Safe (or first second)
  | consume {first second : Filter} : first.Safe → second.Safe → Safe (consume first second)
  | handle {filter : Filter} {func : Tuple → Except BoxedFilterError Val} : filter.Safe →
      (∀ success error, func success = .error error → error.Public) → Safe (handle filter func)
  | recover {filter : Filter} {E : Recoverable} {func : BoxedFilterError → Except BoxedFilterError Val} :
      filter.Safe → (∀ recovered error, func recovered = .error error → error.Public ∨ error = recovered) →
      Safe (recover filter E func)
  | recoverForward {filter : Filter} {E : Recoverable}
      {func : BoxedFilterError → Except BoxedFilterError Forwarding} :
      filter.Safe → (∀ recovered error, func recovered = .error error → error.Public ∨ error = recovered) →
      Safe (recoverForward filter E func)
  | receive {n : Nat} {filter : Filter} : filter.Safe → Safe (receive n filter)
  | untuple {n : Nat} {filter : Filter} : filter.Safe → Safe (untuple n filter)
  | dynamic {filter : Filter} : filter.Safe → Safe (dynamic filter)
  | arc {filter : Filter} : filter.Safe → Safe (arc filter)
  | cors {c : Cors} {filter : Filter} : filter.Safe → Safe (cors c filter)

/-- Every error a filter built with the public API fails with is harmless. -/
theorem Safe.harmless (hf : f.Safe) (h : FailsWith request f error) : error.Harmless request := by
  induction hf generalizing error with
  | leaf l =>
    obtain ⟨st, input, h⟩ := h
    exact l.harmless_of_execute h
  | param fromStr =>
    obtain ⟨st, input, h⟩ := h
    rcases param_succeeds_or_notFound fromStr request st input with ⟨s, hs⟩ | ⟨c, hc⟩
    · nomatch h.symm.trans hs
    · nomatch h.symm.trans hc
  | value name =>
    obtain ⟨st, input, h⟩ := h
    rw [execute_value] at h
    cases hv : request.header name <;> simp [hv] at h
  | and _ _ ih₁ ih₂ => exact (failsWith_and h).elim ih₁ ih₂
  | or _ _ ih₁ ih₂ => exact (failsWith_or h).elim ih₁ ih₂
  | consume _ _ ih₁ ih₂ => exact (failsWith_consume h).elim ih₁ ih₂
  | handle _ hfunc ih => exact (failsWith_handle h).elim ih fun ⟨s, hs⟩ => .inl (hfunc s _ hs)
  | recover _ hfunc ih =>
    exact (failsWith_recover h).elim ih fun ⟨e₀, h₀, he⟩ => (hfunc e₀ _ he).elim .inl fun heq => heq ▸ ih h₀
  | recoverForward _ hfunc ih =>
    exact (failsWith_recoverForward h).elim ih fun ⟨e₀, h₀, he⟩ => (hfunc e₀ _ he).elim .inl fun heq => heq ▸ ih h₀
  | receive _ ih => exact ih (failsWith_receive h)
  | untuple _ ih => exact ih (failsWith_untuple h)
  | dynamic _ ih | arc _ ih => exact ih h
  | cors _ ih => exact ih (failsWith_cors h)

/-- `json::request()` and `form::urlencoded::request()` are built with the public API:
each of their functions fails only with the format's own error, or hands back the
error it recovered. -/
theorem safe_bodyRequest (subtype : String) {wrap : BodyFormatError → BoxedFilterError}
    (hwrap : ∀ error, (wrap error).Public) (mimeFromStr : String → Option Mime)
    (fromReader : BytesBuf → Except String Val) : (bodyRequest subtype wrap mimeFromStr fromReader).Safe := by
  refine .handle (.and (.untuple (.handle (.untuple (.handle (.leaf _) ?_)) ?_)) (.recover (.leaf _) ?_)) ?_
  · intro success error h
    revert h
    split <;> intro h <;> cases h
  · intro success error h
    unfold contentTypeHandler at h
    split at h
    · split_ifs at h
      cases h
      exact hwrap _
    all_goals cases h; exact hwrap _
  · intro recovered error h
    unfold readingError at h
    split at h <;> cases h
    · exact .inl (hwrap _)
    · exact .inr rfl
  · intro success error h
    have hdeserialize : ∀ r : Except String Val, r.mapError (wrap ∘ .deserializing) = .error error →
        error.Public := by
      intro r hr
      cases r <;> cases hr
      exact hwrap _
    unfold deserializeBody at h
    split at h <;> exact hdeserialize _ h

end Filter

namespace Endpoint

/-- **`handle_requests` never panics.**  For every endpoint built with the library's
public API, every request whose path is made of bytes a header value may hold (as the
path of every `Uri` is), every body stream, responder and outside error type,
`handle_requests` answers with a response: none of the `into_response`s that panic is
reached. -/
theorem handleRequest_never_panics (e : Endpoint) (hsafe : e.filter.Safe) (respond : Val → Response)
    (otherResponse : String → String → Response) (request : Request) (events : List BodyEvent)
    (hpath : request.fullPath.all isValidHeaderByte) :
    ∃ response, e.handleRequest respond otherResponse request events = .ok response := by
  rcases h : (e.filter.execute request (.new events) []).outcome with success | error | ⟨input, forwarding⟩
  · obtain ⟨responder, rfl⟩ := List.length_eq_one.mp (e.success_length request events h)
    exact ⟨_, e.handleRequest_of_success respond otherResponse request events h⟩
  · rw [e.handleRequest_of_error respond otherResponse request events h]
    exact BoxedFilterError.intoResponse_ok_of_harmless otherResponse (hsafe.harmless ⟨_, _, h⟩) hpath
  · exact ⟨_, e.handleRequest_of_forward respond otherResponse request events h⟩

/-- `literal("a").and(end()).and(json::request()).handle(…)` answers `/a/`, which `end()`
redirects, and `/a` with a body but no `Content-Type`, which `json::request()` refuses,
without panicking. -/
theorem handleRequest_never_panics_redirect :
    let mimeFromStr : String → Option Mime := fun _ => some ⟨"application", "json"⟩
    let fromReader : BytesBuf → Except String Val := fun _ => .ok (.int 0)
    let e : Endpoint := ⟨.handle (.and (.and (.leaf (.literal ⟨"a", by decide, by decide⟩)) (.leaf .pathEnd))
        (Json.request mimeFromStr fromReader)) fun _ => .ok (.str "a"),
      ⟨rfl, ⟨rfl, trivial, trivial⟩, bodyRequest_wellTyped "json" .json mimeFromStr fromReader⟩, rfl, rfl⟩
    let respond : Val → Response := fun _ => defaultResponse StatusCode.OK
    let otherResponse : String → String → Response := fun _ _ => defaultResponse StatusCode.INTERNAL_SERVER_ERROR
    e.filter.Safe ∧ [(47 : UInt8), 97, 47].all isValidHeaderByte ∧ [(47 : UInt8), 97].all isValidHeaderByte ∧
      (∃ response, e.handleRequest respond otherResponse ⟨.get, [47, 97, 47], []⟩ [] = .ok response) ∧
      ∃ response, e.handleRequest respond otherResponse ⟨.post, [47, 97], []⟩ [.data [123, 125]] = .ok response := by
  intro mimeFromStr fromReader e respond otherResponse
  have hsafe : e.filter.Safe :=
    .handle (.and (.and (.leaf _) (.leaf _)) (@Filter.safe_bodyRequest "json" .json (fun _ => trivial) mimeFromStr fromReader))
      fun _ _ h => nomatch h
  exact ⟨hsafe, by decide, by decide,
    handleRequest_never_panics e hsafe respond otherResponse ⟨.get, [47, 97, 47], []⟩ [] (by decide),
    handleRequest_never_panics e hsafe respond otherResponse ⟨.post, [47, 97], []⟩ [.data [123, 125]] (by decide)⟩

end Endpoint

end Myth
