import Myth.Filter

/-!
# Security headers after an endpoint: `security/hsts.rs` and `security/mod.rs`

`hsts(config)` formats `Strict-Transport-Security` from its configuration, makes a
header value of it with an `expect`, and returns `any().receive::<(Response,)>()
.handle(…)`, which sets that header on the response it receives;
`x_content_type_options()` sets `X-Content-Type-Options: nosniff` on the response it
receives.  Both follow an endpoint through `then()`.

    Hsts.headerValue_ok : the formatted value is a valid header value for every
                          configuration, so `hsts` never panics
    security_headers    : `f.then(hsts(config)).then(x_content_type_options())` keeps
                          the state, errors and forwards of `f`, and gives each response
                          `f` succeeds with exactly the two headers, every other header
                          as it was

`then()` runs its first filter on `()` and its second on the first's success, so both
steps only see what the endpoint succeeded with (`execute_consume_of_success`).
-/

namespace Myth

/-- `STRICT_TRANSPORT_SECURITY`. -/
def STRICT_TRANSPORT_SECURITY : HeaderName := ⟨"strict-transport-security"⟩

namespace Hsts

/-- `Directives`: what follows `max-age`. -/
inductive Directives where
  | none | includeSubDomains | preload

/-- `Config`, its `max_age` by the whole seconds the header sends. -/
structure Config where
  maxAge : Nat
  directives : Directives

/-- The text `hsts` formats. -/
def Config.headerString (config : Config) : String :=
  match config.directives with
  | .includeSubDomains => "max-age=" ++ toString config.maxAge ++ "; includeSubDomains"
  | .preload => "max-age=" ++ toString config.maxAge ++ "; includeSubDomains; preload"
  | .none => "max-age=" ++ toString config.maxAge

/-- `string.try_into().expect(…)`: the header value, or the message it panics with. -/
def Config.headerValue (config : Config) : Except String HeaderValue :=
  if (HeaderValue.ofString config.headerString).bytes.all isValidHeaderByte then
    .ok (.ofString config.headerString)
  else .error "HSTS header value should be valid"

/-- What the handler of `hsts` answers: the response it receives with
`Strict-Transport-Security` set to `value`.  A value that is not a response, which the
code's types rule out, passes unchanged. -/
def setHeader (value : HeaderValue) : Tuple → Val
  | [.response response] => .response (response.withHeader STRICT_TRANSPORT_SECURITY value)
  | [other] => other
  | other => .tuple other

/-- The filter `hsts` returns: `any().receive::<(Response,)>()` and a handler that never
fails. -/
def filter (value : HeaderValue) : Filter :=
  .handle (.receive 1 (.leaf .any)) fun success => .ok (setHeader value success)

/-- `hsts(config)`, or the message it panics with. -/
def hsts (config : Config) : Except String Filter := config.headerValue.map filter

/-! ## The header value is always valid -/

/-- The ten characters `Nat.toDigits 10` writes. -/
def decimalDigits : List Char := ['0', '1', '2', '3', '4', '5', '6', '7', '8', '9']

theorem toDigitsCore_mem (fuel n : Nat) (ds : List Char) (hds : ∀ c ∈ ds, c ∈ decimalDigits) :
    ∀ c ∈ Nat.toDigitsCore 10 fuel n ds, c ∈ decimalDigits := by
  induction fuel generalizing n ds with
  | zero => exact hds
  | succ fuel ih =>
    have hdigit : ∀ k < 10, Nat.digitChar k ∈ decimalDigits := by decide
    have hd := hdigit _ (Nat.mod_lt n (by decide))
    have hcons : ∀ c ∈ Nat.digitChar (n % 10) :: ds, c ∈ decimalDigits :=
      fun c hc => (List.mem_cons.mp hc).elim (· ▸ hd) (hds c)
    show ∀ c ∈ (if n / 10 = 0 then Nat.digitChar (n % 10) :: ds
      else Nat.toDigitsCore 10 fuel (n / 10) (Nat.digitChar (n % 10) :: ds)), c ∈ decimalDigits
    split
    · exact hcons
    · exact ih _ _ hcons

/-- Every character of a formatted `max_age` is a decimal digit. -/
theorem mem_toString (n : Nat) : ∀ c ∈ (toString n).data, c ∈ decimalDigits :=
  toDigitsCore_mem (n + 1) n [] (by simp)

theorem headerValue_ok (config : Config) : config.headerValue = .ok (.ofString config.headerString) := by
  have hdigits : ((toString config.maxAge).data.flatMap String.utf8EncodeChar).all isValidHeaderByte := by
    have hvalid : ∀ c ∈ decimalDigits, (String.utf8EncodeChar c).all isValidHeaderByte := by decide
    simp only [List.all_eq_true, List.mem_flatMap]
    rintro b ⟨c, hc, hb⟩
    exact List.all_eq_true.mp (hvalid c (mem_toString _ c hc)) b hb
  rw [Config.headerValue, if_pos]
  unfold Config.headerString
  split <;> simp only [HeaderValue.ofString_eq, String.data_append, List.flatMap_append, List.all_append,
    hdigits, Bool.and_true, Bool.true_and] <;> decide

/-- The filter runs in one step: it keeps the state and succeeds with `setHeader`. -/
theorem execute_filter (value : HeaderValue) (request : Request) (st : RequestState) (input : Tuple) :
    (filter value).execute request st input = ⟨st, .success [setHeader value input]⟩ :=
  rfl

end Hsts

/-! ## `then()` after an endpoint -/

namespace Filter

variable {request : Request} {f g : Filter} {st st' : RequestState}

theorem execute_consume_of_success {success : Tuple}
    (h : f.execute request st [] = ⟨st', .success success⟩) :
    (consume f g).execute request st [] =
      (g.execute request st' success).mapInput fun input => (Tuple.remove f.successArity input).1 := by
  simp only [execute, h, Tuple.append_eq, List.nil_append]

theorem execute_consume_of_error {error : BoxedFilterError}
    (h : f.execute request st [] = ⟨st', .error error⟩) :
    (consume f g).execute request st [] = ⟨st', .error error⟩ := by
  simp only [execute, h]

theorem execute_consume_of_forward {input : Tuple} {forwarding : Forwarding}
    (h : f.execute request st [] = ⟨st', .forward input forwarding⟩) :
    (consume f g).execute request st [] = ⟨st', .forward [] forwarding⟩ := by
  simp only [execute, h]

end Filter

/-- **Security headers after an endpoint.**  For every configuration `hsts` does not
panic, and for every filter `f`, request and state, `f.then(hsts(config))
.then(x_content_type_options())` ends in the state `f` ends in, fails with the errors
of `f`, forwards with the reasons of `f`, and answers each response `f` succeeds with
by that response with `Strict-Transport-Security` set to the formatted value and
`X-Content-Type-Options` to `nosniff`, its status and every other header unchanged. -/
theorem security_headers (config : Hsts.Config) (f : Filter) (request : Request) (st : RequestState) :
    ∃ hsts, Hsts.hsts config = .ok hsts ∧
      let secured := Filter.consume (.consume f hsts) (.leaf .xContentTypeOptions)
      (secured.execute request st []).requestState = (f.execute request st []).requestState ∧
      (∀ error, (secured.execute request st []).outcome = .error error ↔
        (f.execute request st []).outcome = .error error) ∧
      (∀ input forwarding, (secured.execute request st []).outcome = .forward input forwarding ↔
        input = [] ∧ ∃ input', (f.execute request st []).outcome = .forward input' forwarding) ∧
      ∀ response, (f.execute request st []).outcome = .success [.response response] →
        ∃ response', (secured.execute request st []).outcome = .success [.response response'] ∧
          response'.status = response.status ∧
          response'.headers.getAll STRICT_TRANSPORT_SECURITY = [.ofString config.headerString] ∧
          response'.headers.getAll X_CONTENT_TYPE_OPTIONS = [.ofString "nosniff"] ∧
          ∀ name, name ≠ STRICT_TRANSPORT_SECURITY → name ≠ X_CONTENT_TYPE_OPTIONS →
            response'.headers.getAll name = response.headers.getAll name := by
  refine ⟨_, by rw [Hsts.hsts, Hsts.headerValue_ok]; rfl, ?_⟩
  intro secured
  rcases hf : f.execute request st [] with ⟨st', success | error | ⟨input', forwarding⟩⟩
  · have hhsts : (Filter.consume f (Hsts.filter (.ofString config.headerString))).execute request st [] =
        ⟨st', .success [Hsts.setHeader (.ofString config.headerString) success]⟩ := by
      rw [Filter.execute_consume_of_success hf, Hsts.execute_filter]
      rfl
    have hsecured : secured.execute request st [] =
        ⟨st', .success (match [Hsts.setHeader (.ofString config.headerString) success] with
          | [.response response] =>
            [.response (response.withHeader X_CONTENT_TYPE_OPTIONS (.ofString "nosniff"))]
          | other => other)⟩ :=
      (Filter.execute_consume_of_success hhsts).trans rfl
    refine ⟨by rw [hsecured], fun error => by simp [hsecured], fun input forwarding => by simp [hsecured], ?_⟩
    intro response hr
    obtain rfl : success = [.response response] := Outcome.success.inj hr
    refine ⟨(response.withHeader STRICT_TRANSPORT_SECURITY (.ofString config.headerString)).withHeader
      X_CONTENT_TYPE_OPTIONS (.ofString "nosniff"), by rw [hsecured]; rfl, rfl, ?_, ?_, fun name h1 h2 => ?_⟩
    · simp [Response.withHeader, HeaderMap.getAll_insert, STRICT_TRANSPORT_SECURITY, X_CONTENT_TYPE_OPTIONS]
    · simp [Response.withHeader, HeaderMap.getAll_insert]
    · simp [Response.withHeader, HeaderMap.getAll_insert, Ne.symm h1, Ne.symm h2]
  · have hsecured : secured.execute request st [] = ⟨st', .error error⟩ :=
      Filter.execute_consume_of_error (Filter.execute_consume_of_error hf)
    simp [hsecured]
  · have hsecured : secured.execute request st [] = ⟨st', .forward [] forwarding⟩ :=
      Filter.execute_consume_of_forward (Filter.execute_consume_of_forward hf)
    simp [hsecured]

end Myth
