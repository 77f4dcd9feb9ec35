import Mathlib.Data.String.Basic
import Myth.Filter

/-!
# CORS preflight answers (`security/origin.rs`)

`Cors::execute` answers an `OPTIONS` request that has an `Origin` header itself, with
`Cors::preflight`; the wrapped filter does not run.  `preflight_impl` decides the
status: a refused origin is 403, a missing `Access-Control-Request-Method` is 400, a
method not configured is 403, and then every `Access-Control-Request-Headers` value
goes through two loops, one over its comma-separated tokens (trimmed of spaces and
tabs) and one over its whitespace-separated tokens, each token of either naming an
allowed header.  `HeadersAllowed` is what the two loops ask of one value.

    preflightImpl_cases          : the four ways `preflight_impl` can decide
    preflight_status             : the status of a preflight answer, in closed form
    preflight_comma_list_refused : a comma-only list of requested headers is never accepted
    execute_cors_preflight       : the `Cors` filter answers an `OPTIONS` request with it

The second loop reads a comma-only list such as `content-type,x-custom-header`, the
form browsers send, as one header name, so a preflight that asks for two allowed
headers is refused.
-/

namespace Myth

/-- Lower-casing turns no character but a comma into a comma. -/
theorem toLower_eq_comma {c : Char} (h : c.toLower = ',') : c = ',' := by
  unfold Char.toLower at h
  dsimp only at h
  split at h
  · rename_i hup
    unfold Char.ofNat at h
    split at h
    · have hnat : c.toNat + 32 = 44 := congrArg Char.toNat h
      omega
    · exact absurd h (by decide)
  · exact h

namespace Cors

/-- What both loops of `preflight_impl` ask of one `Access-Control-Request-Headers`
value: it is visible ASCII, and each of its comma-separated tokens, trimmed, and each
of its whitespace-separated tokens names an allowed header. -/
def HeadersAllowed (cors : Cors) (value : HeaderValue) : Prop :=
  ∃ s, value.toStr = some s ∧ (∀ token ∈ s.data.splitOn ',', cors.allowsHeader (trimSpacesTabs token)) ∧
    ∀ token ∈ splitWhitespace s.data, cors.allowsHeader token

theorem checkRequestHeaders_cases (cors : Cors) (value : HeaderValue) :
    (cors.checkRequestHeaders value = .ok () ∧ cors.HeadersAllowed value) ∨
      (cors.checkRequestHeaders value = .error StatusCode.FORBIDDEN ∧ ¬cors.HeadersAllowed value) := by
  unfold checkRequestHeaders HeadersAllowed
  rcases value.toStr with _ | s
  · simp
  · by_cases h : ((s.data.splitOn ',').all fun padded => cors.allowsHeader (trimSpacesTabs padded)) &&
        (splitWhitespace s.data).all cors.allowsHeader
    · left
      simp only [h, if_true, true_and, Option.some.injEq, exists_eq_left']
      simpa using h
    · right
      simp only [h, if_false, true_and, Option.some.injEq, exists_eq_left']
      simpa using h

theorem forM_checkRequestHeaders_cases (cors : Cors) (values : List HeaderValue) :
    (values.forM cors.checkRequestHeaders = .ok () ∧ ∀ value ∈ values, cors.HeadersAllowed value) ∨
      (values.forM cors.checkRequestHeaders = .error StatusCode.FORBIDDEN ∧
        ¬∀ value ∈ values, cors.HeadersAllowed value) := by
  induction values with
  | nil => exact .inl ⟨rfl, by simp⟩
  | cons value values ih =>
    rcases checkRequestHeaders_cases cors value with ⟨h, hv⟩ | ⟨h, hv⟩
    · rcases ih with ⟨ih, hvs⟩ | ⟨ih, hvs⟩
      · exact .inl ⟨by simp only [List.forM, h, ih]; rfl, List.forall_mem_cons.mpr ⟨hv, hvs⟩⟩
      · exact .inr ⟨by simp only [List.forM, h, ih]; rfl, fun hall => hvs (List.forall_mem_cons.mp hall).2⟩
    · exact .inr ⟨by simp only [List.forM, h]; rfl, fun hall => hv (List.forall_mem_cons.mp hall).1⟩

theorem splitWhitespace_of_no_space {s : List Char} (hne : s ≠ [])
    (hspace : ∀ c ∈ s, c.isWhitespace = false) : splitWhitespace s = [s] := by
  unfold splitWhitespace
  rw [List.splitOnP_eq_single _ _ (by simpa using hspace)]
  simp [hne]

/-- A token with a comma names no allowed header, when no allowed header name has one. -/
theorem allowsHeader_of_comma {cors : Cors} (hnames : ∀ header ∈ cors.allowHeaders, ',' ∉ header.name.data)
    {token : List Char} (hcomma : ',' ∈ token) : cors.allowsHeader token = false := by
  simp only [allowsHeader, List.any_eq_false, headerNameEq, String.map_eq, decide_eq_true_eq]
  intro header hmem heq
  have hlower : ',' ∈ header.name.data.map Char.toLower := by
    rw [show header.name.data.map Char.toLower = token.map Char.toLower from congrArg String.data heq]
    exact List.mem_map_of_mem Char.toLower hcomma
  obtain ⟨c, hc, hlow⟩ := List.mem_map.mp hlower
  exact hnames header hmem (toLower_eq_comma hlow ▸ hc)

/-- What `preflight_impl` can decide: refuse the origin, find no requested method,
refuse the requested method, or leave it to the requested headers. -/
theorem preflightImpl_cases (cors : Cors) (headers : HeaderMap) (request : Request)
    (origin : HeaderValue) :
    (cors.checkOrigin origin = .disallowed ∧
      (cors.preflightImpl headers request origin).2 = .error StatusCode.FORBIDDEN) ∨
    (cors.checkOrigin origin ≠ .disallowed ∧ request.header ACCESS_CONTROL_REQUEST_METHOD = none ∧
      (cors.preflightImpl headers request origin).2 = .error StatusCode.BAD_REQUEST) ∨
    (cors.checkOrigin origin ≠ .disallowed ∧
      (∃ requestMethod, request.header ACCESS_CONTROL_REQUEST_METHOD = some requestMethod ∧
        ¬∃ method ∈ cors.methods, requestMethod = .ofString method.asStr) ∧
      (cors.preflightImpl headers request origin).2 = .error StatusCode.FORBIDDEN) ∨
    (cors.checkOrigin origin ≠ .disallowed ∧
      (∃ requestMethod, request.header ACCESS_CONTROL_REQUEST_METHOD = some requestMethod ∧
        ∃ method ∈ cors.methods, requestMethod = .ofString method.asStr) ∧
      (cors.preflightImpl headers request origin).2 =
        (request.headerAll ACCESS_CONTROL_REQUEST_HEADERS).forM cors.checkRequestHeaders) := by
  unfold preflightImpl
  rcases ho : cors.checkOrigin origin with _ | _ | _
  case disallowed => exact .inl ⟨rfl, rfl⟩
  all_goals
    rcases hm : request.header ACCESS_CONTROL_REQUEST_METHOD with _ | requestMethod
    · exact .inr (.inl ⟨by simp, rfl, rfl⟩)
    · dsimp only
      split
      · rename_i hmethod
        exact .inr (.inr (.inl ⟨by simp, ⟨requestMethod, rfl, by simpa using hmethod⟩, rfl⟩))
      · rename_i hmethod
        exact .inr (.inr (.inr ⟨by simp, ⟨requestMethod, rfl, by simpa using hmethod⟩, rfl⟩))

/-- Past the origin and the method, `preflight_impl` is the loop over the requested
headers. -/
theorem preflightImpl_of_method {cors : Cors} (headers : HeaderMap) {request : Request}
    {origin : HeaderValue} (hd : cors.checkOrigin origin ≠ .disallowed) {requestMethod : HeaderValue}
    (hm : request.header ACCESS_CONTROL_REQUEST_METHOD = some requestMethod)
    (hmethod : ∃ method ∈ cors.methods, requestMethod = .ofString method.asStr) :
    (cors.preflightImpl headers request origin).2 =
      (request.headerAll ACCESS_CONTROL_REQUEST_HEADERS).forM cors.checkRequestHeaders := by
  rcases preflightImpl_cases cors headers request origin with
    ⟨hd', -⟩ | ⟨-, hm', -⟩ | ⟨-, ⟨_, hm', hnot⟩, -⟩ | ⟨-, -, h⟩
  · exact absurd hd' hd
  · simp [hm] at hm'
  · obtain rfl := Option.some.inj (hm.symm.trans hm')
    exact absurd hmethod hnot
  · exact h

theorem preflight_status_ok {cors : Cors} {request : Request} {origin : HeaderValue}
    (h : (cors.preflightImpl cors.preflightHeaders request origin).2 = .ok ()) :
    (cors.preflight request origin).status = StatusCode.NO_CONTENT := by
  unfold preflight
  rcases hi : cors.preflightImpl cors.preflightHeaders request origin with ⟨headers, result⟩
  rw [hi] at h
  subst h
  rfl

theorem preflight_status_error {cors : Cors} {request : Request} {origin : HeaderValue}
    {status : StatusCode} (h : (cors.preflightImpl cors.preflightHeaders request origin).2 = .error status) :
    (cors.preflight request origin).status = status := by
  unfold preflight
  rcases hi : cors.preflightImpl cors.preflightHeaders request origin with ⟨headers, result⟩
  rw [hi] at h
  subst h
  rfl

/-- The status of a preflight answer: 204 exactly when the origin is not refused, the
requested method is configured and every requested-headers value passes both loops;
400 exactly when the origin is not refused and no method is requested; else 403. -/
theorem preflight_status (cors : Cors) (request : Request) (origin : HeaderValue) :
    ((cors.preflight request origin).status = StatusCode.NO_CONTENT ↔
      cors.checkOrigin origin ≠ .disallowed ∧
      (∃ requestMethod, request.header ACCESS_CONTROL_REQUEST_METHOD = some requestMethod ∧
        ∃ method ∈ cors.methods, requestMethod = .ofString method.asStr) ∧
      ∀ value ∈ request.headerAll ACCESS_CONTROL_REQUEST_HEADERS, cors.HeadersAllowed value) ∧
    ((cors.preflight request origin).status = StatusCode.BAD_REQUEST ↔
      cors.checkOrigin origin ≠ .disallowed ∧ request.header ACCESS_CONTROL_REQUEST_METHOD = none) ∧
    ((cors.preflight request origin).status = StatusCode.NO_CONTENT ∨
      (cors.preflight request origin).status = StatusCode.BAD_REQUEST ∨
      (cors.preflight request origin).status = StatusCode.FORBIDDEN) := by
  have h1 : StatusCode.NO_CONTENT ≠ StatusCode.BAD_REQUEST := by decide
  have h2 : StatusCode.NO_CONTENT ≠ StatusCode.FORBIDDEN := by decide
  have h3 : StatusCode.FORBIDDEN ≠ StatusCode.BAD_REQUEST := by decide
  rcases preflightImpl_cases cors cors.preflightHeaders request origin with
    ⟨hd, h⟩ | ⟨hd, hm, h⟩ | ⟨hd, ⟨requestMethod, hm, hmethod⟩, h⟩ | ⟨hd, hm, h⟩
  · simp [preflight_status_error h, hd, h2.symm, h3]
  · simp [preflight_status_error h, hd, hm, h1.symm]
  · simp [preflight_status_error h, hd, hm, hmethod, h2.symm, h3]
  · obtain ⟨requestMethod, hm, hmethod⟩ := hm
    rcases forM_checkRequestHeaders_cases cors (request.headerAll ACCESS_CONTROL_REQUEST_HEADERS) with
      ⟨hf, hall⟩ | ⟨hf, hall⟩
    · refine ⟨iff_of_true (preflight_status_ok (h.trans hf)) ⟨hd, ⟨_, hm, hmethod⟩, hall⟩, ?_, ?_⟩ <;>
        simp [preflight_status_ok (h.trans hf), hm, h1]
    · simp [preflight_status_error (h.trans hf), hd, hm, hall, h2.symm, h3]

/-- **The whitespace loop refuses every comma-only list.**  A requested-headers value
that is visible ASCII with a comma and no whitespace, the form browsers send for two
headers or more, is read whole by the second loop as one header name; when no allowed
header name has a comma, as no `HeaderName` can, the preflight is never answered 204. -/
theorem preflight_comma_list_refused (cors : Cors)
    (hnames : ∀ header ∈ cors.allowHeaders, ',' ∉ header.name.data) (request : Request)
    (origin value : HeaderValue) (hvalue : value ∈ request.headerAll ACCESS_CONTROL_REQUEST_HEADERS)
    (s : String) (hs : value.toStr = some s) (hcomma : ',' ∈ s.data)
    (hspace : ∀ c ∈ s.data, c.isWhitespace = false) :
    (cors.preflight request origin).status ≠ StatusCode.NO_CONTENT := by
  have hrefused : ¬cors.HeadersAllowed value := by
    rintro ⟨s', hs', -, hwhite⟩
    obtain rfl := Option.some.inj (hs.symm.trans hs')
    rw [splitWhitespace_of_no_space (List.ne_nil_of_mem hcomma) hspace] at hwhite
    exact absurd (hwhite _ (List.mem_singleton_self _)) (by rw [allowsHeader_of_comma hnames hcomma]; decide)
  rcases preflightImpl_cases cors cors.preflightHeaders request origin with
    ⟨-, h⟩ | ⟨-, -, h⟩ | ⟨-, -, h⟩ | ⟨-, -, h⟩
  · rw [preflight_status_error h]
    decide
  · rw [preflight_status_error h]
    decide
  · rw [preflight_status_error h]
    decide
  · rcases forM_checkRequestHeaders_cases cors (request.headerAll ACCESS_CONTROL_REQUEST_HEADERS) with
      ⟨-, hall⟩ | ⟨hf, -⟩
    · exact absurd (hall value hvalue) hrefused
    · rw [preflight_status_error (h.trans hf)]
      decide

/-- Any origin, `GET` and `POST`, and the headers `accept` and `content-type`: the
browser's `accept,content-type` is refused. -/
theorem preflight_comma_list_refused_any_origin :
    let cors := Cors.new ⟨none, [.get, .post], [⟨"accept"⟩, ⟨"content-type"⟩], [], none, false⟩
    let request : Request := ⟨.options, [47],
      [(ORIGIN, .ofString "https://a.example"), (ACCESS_CONTROL_REQUEST_METHOD, .ofString "POST"),
        (ACCESS_CONTROL_REQUEST_HEADERS, .ofString "accept,content-type")]⟩
    (cors.preflight request (.ofString "https://a.example")).status ≠ StatusCode.NO_CONTENT := by
  intro cors request
  exact preflight_comma_list_refused cors (by simp [cors, Cors.new]) request _
    (.ofString "accept,content-type") (List.mem_singleton_self _) "accept,content-type"
    (by simp only [HeaderValue.ofString_eq]; decide) (by decide) (by decide)

end Cors

/-- `Cors::execute` answers an `OPTIONS` request that has an `Origin` header itself,
with its preflight answer; the wrapped filter does not run. -/
theorem execute_cors_preflight (cors : Cors) (f : Filter) (request : Request) (st : RequestState)
    (input : Tuple) {origin : HeaderValue} (horigin : request.header ORIGIN = some origin)
    (hoptions : request.method = .options) :
    (Filter.cors cors f).execute request st input =
      ⟨st, .success [.response (cors.preflight request origin)]⟩ := by
  simp [Filter.execute, Cors.dispatch, horigin, hoptions]

/-- A browser's preflight for two configured headers, sent as the comma-only list
browsers send: every comma-separated token names an allowed header, yet the
whitespace loop reads the whole list as one header and the answer is 403. -/
theorem preflight_two_allowed_headers_forbidden (f : Filter) (st : RequestState) (input : Tuple) :
    let config : Config := ⟨some ["https://example.com:12345"], [.patch, .put],
      [⟨"content-type"⟩, ⟨"x-custom-header"⟩], [], none, false⟩
    let request : Request := ⟨.options, [47],
      [(ORIGIN, .ofString "https://example.com:12345"),
        (ACCESS_CONTROL_REQUEST_METHOD, .ofString "PUT"),
        (ACCESS_CONTROL_REQUEST_HEADERS, .ofString "content-type,x-custom-header")]⟩
    config.Accepted ∧
    (∃ origin, request.header ORIGIN = some origin ∧
      ∃ allowed ∈ ["https://example.com:12345"], HeaderValue.ofString allowed = origin) ∧
    (∃ requestMethod, request.header ACCESS_CONTROL_REQUEST_METHOD = some requestMethod ∧
      ∃ method ∈ config.methods, requestMethod = .ofString method.asStr) ∧
    (∀ value ∈ request.headerAll ACCESS_CONTROL_REQUEST_HEADERS, ∃ s, value.toStr = some s ∧
      ∀ token ∈ s.data.splitOn ',', ∃ header ∈ config.allowHeaders,
        Cors.headerNameEq header (String.mk (Cors.trimSpacesTabs token))) ∧
    ∃ response, ((Filter.cors (Cors.new config) f).execute request st input).outcome =
      .success [.response response] ∧ response.status = StatusCode.FORBIDDEN := by
  intro config request
  have hvalues : request.headerAll ACCESS_CONTROL_REQUEST_HEADERS =
      [.ofString "content-type,x-custom-header"] := rfl
  have htoStr : (HeaderValue.ofString "content-type,x-custom-header").toStr =
      some "content-type,x-custom-header" := by
    simp only [HeaderValue.ofString_eq]
    decide
  have hmethod : ∃ method ∈ config.methods, HeaderValue.ofString "PUT" = .ofString method.asStr :=
    ⟨.put, by simp [config], rfl⟩
  refine ⟨⟨List.cons_ne_nil _ _, by simp [config]⟩, ⟨_, rfl, _, List.mem_singleton_self _, rfl⟩,
    ⟨_, rfl, hmethod⟩, ?_, _, congrArg RequestOutcome.outcome
      (execute_cors_preflight _ f request st input
        (show request.header ORIGIN = some (.ofString "https://example.com:12345") from rfl) rfl), ?_⟩
  · simp only [hvalues, List.mem_singleton, forall_eq]
    exact ⟨_, htoStr, by simp only [Cors.headerNameEq, String.map_eq]; decide⟩
  · have hrefused : ¬(Cors.new config).HeadersAllowed (.ofString "content-type,x-custom-header") := by
      rintro ⟨s, hs, -, hwhite⟩
      obtain rfl := Option.some.inj (hs.symm.trans htoStr)
      have hlist := hwhite _ (show "content-type,x-custom-header".data ∈
        Cors.splitWhitespace "content-type,x-custom-header".data by decide)
      simp only [Cors.allowsHeader, Cors.headerNameEq, String.map_eq] at hlist
      revert hlist
      decide
    have hresult := Cors.preflightImpl_of_method (Cors.new config).preflightHeaders
      (show (Cors.new config).checkOrigin (.ofString "https://example.com:12345") ≠ .disallowed by
        simp [Cors.checkOrigin, Cors.new, config])
      (show request.header ACCESS_CONTROL_REQUEST_METHOD = some (.ofString "PUT") from rfl) hmethod
    rcases Cors.forM_checkRequestHeaders_cases (Cors.new config) [.ofString "content-type,x-custom-header"] with
      ⟨-, hall⟩ | ⟨hf, -⟩
    · exact absurd (hall _ (List.mem_singleton_self _)) hrefused
    · exact Cors.preflight_status_error (hresult.trans (hvalues ▸ hf))

end Myth
