import Myth.CorsConfig
import Myth.Preflight
import Myth.Typing

/-!
# What the `Cors` wrapper does to every filter it wraps (`security/origin.rs`)

`Cors::execute` decides before the wrapped filter runs (`Cors.dispatch`), and its
futures `VaryOrigin` and `ApplyHeaders` touch only a success.  Over every configuration,
every wrapped filter and every request:

    dispatch_cases            : the four things `Cors::execute` can decide, and on what
    cors_success_varies_on_origin
                              : a response the wrapper succeeds with either says it varies
                                on `Origin`, or grants every origin alike with `*`, so a
                                shared cache cannot hand one origin's grant to another
    cors_transparent          : the wrapper answers by itself (the preflight answer or
                                403), or hands back the wrapped filter's state, errors
                                and forwards, and its responses with only the
                                `Access-Control-*` headers it sets and `Vary` changed
    apply_build_admits        : for a filter `Config::apply` built after builder calls, a
                                cross-origin request reaches the wrapped filter exactly when
                                the calls granted its origin and named its method; otherwise
                                it is answered 403 without running it

A cache reads `Vary` as a comma-separated list of field names compared without case
(`HeaderValue.listsField`); `vary_origin` appends `origin`, and a preflight answer under
listed origins carries `Origin, Access-Control-Request-Method, ...`.
-/

namespace Myth

/-- Whether a `Vary` value lists the field `name`, as a cache reads it: one of its
comma-separated tokens, trimmed of spaces and tabs, is `name` up to ASCII case. -/
def HeaderValue.listsField (value : HeaderValue) (name : HeaderName) : Bool :=
  match value.toStr with
  | some s => (s.data.splitOn ',').any fun token =>
      Cors.headerNameEq name (String.mk (Cors.trimSpacesTabs token))
  | none => false

/-- Whether a response's headers say that it varies with the request's `Origin`. -/
def VariesOnOrigin (headers : HeaderMap) : Prop :=
  ∃ value ∈ headers.getAll VARY, value.listsField ORIGIN

theorem variesOnOrigin_varyOrigin (headers : HeaderMap) : VariesOnOrigin (varyOrigin headers) := by
  refine ⟨.ofString "origin", by simp [varyOrigin, HeaderMap.getAll_append], ?_⟩
  simp only [HeaderValue.ofString_eq, HeaderValue.listsField, Cors.headerNameEq, String.map_eq]
  decide

/-! ## The preflight answer's headers -/

theorem preflightHeaders_vary {config : Config} (h : config.origins ≠ none) :
    VariesOnOrigin config.preflightHeaders := by
  obtain ⟨origins, ho⟩ := Option.ne_none_iff_exists'.mp h
  refine ⟨.ofString "Origin, Access-Control-Request-Method, Access-Control-Request-Headers", ?_, ?_⟩
  · unfold Config.preflightHeaders
    simp only [ho]
    repeat' split
    all_goals simp [HeaderMap.getAll_insert, VARY, ACCESS_CONTROL_ALLOW_METHODS, ACCESS_CONTROL_ALLOW_HEADERS,
      ACCESS_CONTROL_EXPOSE_HEADERS, ACCESS_CONTROL_ALLOW_CREDENTIALS, ACCESS_CONTROL_MAX_AGE]
  · simp only [HeaderValue.ofString_eq, HeaderValue.listsField, Cors.headerNameEq, String.map_eq]
    decide

theorem preflightHeaders_allowOrigin {config : Config} (h : config.origins = none) :
    config.preflightHeaders.getAll ACCESS_CONTROL_ALLOW_ORIGIN = [.ofString "*"] := by
  unfold Config.preflightHeaders
  simp only [h]
  repeat' split
  all_goals simp [HeaderMap.getAll_insert, VARY, ACCESS_CONTROL_ALLOW_ORIGIN, ACCESS_CONTROL_ALLOW_METHODS,
    ACCESS_CONTROL_ALLOW_HEADERS, ACCESS_CONTROL_EXPOSE_HEADERS, ACCESS_CONTROL_ALLOW_CREDENTIALS,
    ACCESS_CONTROL_MAX_AGE]

namespace Cors

theorem preflightImpl_headers (cors : Cors) (headers : HeaderMap) (request : Request) (origin : HeaderValue) :
    (cors.preflightImpl headers request origin).1 =
      if cors.checkOrigin origin = .allowed then headers.append ACCESS_CONTROL_ALLOW_ORIGIN origin
      else headers := by
  unfold preflightImpl
  rcases cors.checkOrigin origin with _ | _ | _ <;> simp only [reduceCtorEq, if_true, if_false] <;>
    repeat' split
  all_goals rfl

theorem preflight_headers (cors : Cors) (request : Request) (origin : HeaderValue) :
    (cors.preflight request origin).headers = (cors.preflightImpl cors.preflightHeaders request origin).1 := by
  unfold preflight
  rcases cors.preflightImpl cors.preflightHeaders request origin with ⟨headers, _ | _⟩ <;> rfl

/-- What `ApplyHeaders` makes of a one-value success: a response whose only
`Access-Control-Allow-Origin` is `origin`, varying on `Origin` when `vary` is set. -/
theorem applyHeaders_single (cors : Cors) (origin : HeaderValue) (vary : Bool) (v : Val) :
    ∃ response, cors.applyHeaders origin vary [v] = [.response response] ∧
      response.headers.getAll ACCESS_CONTROL_ALLOW_ORIGIN = [origin] ∧
      (vary = true → VariesOnOrigin response.headers) := by
  refine ⟨_, rfl, ?_, fun hv => ?_⟩
  · repeat' split
    all_goals simp [varyOrigin, Response.withHeader, HeaderMap.getAll_insert, HeaderMap.getAll_append, VARY,
      ACCESS_CONTROL_ALLOW_ORIGIN, ACCESS_CONTROL_EXPOSE_HEADERS, ACCESS_CONTROL_ALLOW_CREDENTIALS]
  · simp only [hv, if_true]
    exact variesOnOrigin_varyOrigin _

/-- What `Cors::execute` can decide, and what it read to decide it: `VaryOrigin` when
there is no `Origin`, the preflight answer to `OPTIONS`, 403 for a refused origin or
method, and `ApplyHeaders` with the origin, or with `*` when any origin is allowed. -/
theorem dispatch_cases (cors : Cors) (request : Request) :
    (request.header ORIGIN = none ∧ cors.dispatch request = .varyOrigin) ∨
    (∃ origin, request.header ORIGIN = some origin ∧ request.method = .options ∧
      cors.dispatch request = .respond (cors.preflight request origin)) ∨
    (∃ origin, request.header ORIGIN = some origin ∧ request.method ≠ .options ∧
      (cors.checkOrigin origin = .disallowed ∨ request.method ∉ cors.methods) ∧
      cors.dispatch request = .respond forbidden) ∨
    (∃ origin, request.header ORIGIN = some origin ∧ request.method ≠ .options ∧
      request.method ∈ cors.methods ∧
      ((cors.checkOrigin origin = .allowed ∧ cors.dispatch request = .applyHeaders origin true) ∨
        (cors.checkOrigin origin = .any ∧ cors.dispatch request = .applyHeaders (.ofString "*") false))) := by
  unfold dispatch
  rcases ho : request.header ORIGIN with _ | origin
  · exact .inl ⟨rfl, rfl⟩
  · by_cases hopt : request.method = .options
    · exact .inr (.inl ⟨origin, rfl, hopt, by simp [hopt]⟩)
    · rcases hc : cors.checkOrigin origin with _ | _ | _ <;>
        by_cases hm : request.method ∈ cors.methods <;> simp [hopt, hc, hm]

variable {cors : Cors} {f : Filter} {request : Request} {st : RequestState} {input : Tuple}

theorem execute_of_respond {response : Response} (h : cors.dispatch request = .respond response) :
    (Filter.cors cors f).execute request st input = ⟨st, .success [.response response]⟩ := by
  simp only [Filter.execute, h]

theorem execute_of_applyHeaders {origin : HeaderValue} {vary : Bool}
    (h : cors.dispatch request = .applyHeaders origin vary) :
    (Filter.cors cors f).execute request st input = (f.execute request st input).map (cors.applyHeaders origin vary) := by
  simp only [Filter.execute, h]

theorem checkOrigin_any {cors : Cors} {origin : HeaderValue} (h : cors.checkOrigin origin = .any) :
    cors.origins = none := by
  unfold checkOrigin at h
  split at h
  · split at h <;> cases h
  · assumption

end Cors

/-! ## `Vary` on every success -/

/-- The preflight answer varies on `Origin`, or, when every origin is allowed, grants
only `*`. -/
theorem preflight_varies (config : Config) (request : Request) (origin : HeaderValue) :
    VariesOnOrigin ((Cors.new config).preflight request origin).headers ∨ config.origins = none ∧
      ∀ value ∈ ((Cors.new config).preflight request origin).headers.getAll ACCESS_CONTROL_ALLOW_ORIGIN,
        value = .ofString "*" := by
  rw [Cors.preflight_headers, Cors.preflightImpl_headers]
  by_cases ho : config.origins = none
  · have hcheck : (Cors.new config).checkOrigin origin = .any := by simp [Cors.checkOrigin, Cors.new, ho]
    refine .inr ⟨ho, fun value hv => ?_⟩
    rw [hcheck, if_neg (by decide)] at hv
    simpa [Cors.new, preflightHeaders_allowOrigin ho] using hv
  · obtain ⟨value, hv, hlists⟩ := preflightHeaders_vary ho
    refine .inl ⟨value, ?_, hlists⟩
    split_ifs
    · simp [HeaderMap.getAll_append, Cors.new, hv]
    · exact hv

/-- **A response that grants one origin says it varies on `Origin`.**  Whatever the
configuration, the wrapped filter and the request, a response the wrapper succeeds with
either carries a `Vary` that lists `Origin`, or comes from a configuration allowing any
origin and grants only `*`. -/
theorem cors_success_varies_on_origin (config : Config) (f : Filter)
    (hwt : (Filter.cors (Cors.new config) f).WellTyped) (request : Request) (st : RequestState)
    (input : Tuple) (hc : input.length = (Filter.cors (Cors.new config) f).inputArity) {success : Tuple}
    (h : ((Filter.cors (Cors.new config) f).execute request st input).outcome = .success success) :
    ∃ response, success = [.response response] ∧ (VariesOnOrigin response.headers ∨
      config.origins = none ∧
        ∀ value ∈ response.headers.getAll ACCESS_CONTROL_ALLOW_ORIGIN, value = .ofString "*") := by
  obtain ⟨harity, hwf⟩ := hwt
  have typed := f.execute_typed request hwf st input hc
  rw [harity] at typed
  have hsingle : ∀ {g : Tuple → Tuple} {s : Tuple}, (f.execute request st input).outcome.map g = .success s →
      ∃ v, s = g [v] := by
    intro g s hs
    obtain ⟨s', hs', rfl⟩ := Outcome.map_eq_success.mp hs
    rw [hs'] at typed
    match s', typed with
    | [v], _ => exact ⟨v, rfl⟩
  rcases (Cors.new config).dispatch_cases request with
    ⟨-, hd⟩ | ⟨origin, -, -, hd⟩ | ⟨-, -, -, -, hd⟩ | ⟨origin, -, -, -, ⟨-, hd⟩ | ⟨hany, hd⟩⟩ <;>
    simp only [Filter.execute, hd, RequestOutcome.map] at h
  · obtain ⟨v, rfl⟩ := hsingle h
    exact ⟨_, rfl, .inl (variesOnOrigin_varyOrigin _)⟩
  · cases h
    exact ⟨_, rfl, preflight_varies config request origin⟩
  · cases h
    exact ⟨_, rfl, .inl (variesOnOrigin_varyOrigin _)⟩
  · obtain ⟨v, rfl⟩ := hsingle h
    obtain ⟨response, heq, -, hvary⟩ := (Cors.new config).applyHeaders_single origin true v
    exact ⟨response, heq, .inl (hvary rfl)⟩
  · obtain ⟨v, rfl⟩ := hsingle h
    obtain ⟨response, heq, hallow, -⟩ := (Cors.new config).applyHeaders_single (.ofString "*") false v
    exact ⟨response, heq, .inr ⟨Cors.checkOrigin_any hany, by simp [hallow]⟩⟩

/-- A `GET` from a listed origin: the wrapped filter's answer comes back varying on
`Origin`. -/
theorem cors_success_varies_on_origin_listed :
    let config : Config := ⟨some ["https://a.example"], [.get], [], [], none, false⟩
    let f : Filter := .leaf (.extract fun _ => .str "hello")
    let request : Request := ⟨.get, [47], [(ORIGIN, .ofString "https://a.example")]⟩
    let success := (Cors.new config).applyHeaders (.ofString "https://a.example") true [.str "hello"]
    ((Filter.cors (Cors.new config) f).WellTyped ∧
      ([] : Tuple).length = (Filter.cors (Cors.new config) f).inputArity ∧
      ((Filter.cors (Cors.new config) f).execute request (.new []) []).outcome = .success success) ∧
    ∃ response, success = [.response response] ∧ (VariesOnOrigin response.headers ∨
      config.origins = none ∧
        ∀ value ∈ response.headers.getAll ACCESS_CONTROL_ALLOW_ORIGIN, value = .ofString "*") := by
  intro config f request success
  have hrun : ((Filter.cors (Cors.new config) f).execute request (.new []) []).outcome = .success success := by
    simp only [Filter.execute, Cors.dispatch, Cors.checkOrigin, Cors.new, config, request, success,
      HeaderValue.ofString_eq]
    rfl
  exact ⟨⟨⟨rfl, trivial⟩, rfl, hrun⟩,
    cors_success_varies_on_origin config f ⟨rfl, trivial⟩ request (.new []) [] rfl hrun⟩

/-! ## The wrapper is transparent -/

/-- `response` is `original` with no more changed than a `Cors` wrapper changes: the
same status, every header but `Access-Control-Allow-Origin`,
`Access-Control-Expose-Headers`, `Access-Control-Allow-Credentials` and `Vary` as it was,
and `Vary` as it was or with `origin` appended. -/
def CorsFrame (original response : Response) : Prop :=
  response.status = original.status ∧
  (∀ name, name ≠ ACCESS_CONTROL_ALLOW_ORIGIN → name ≠ ACCESS_CONTROL_EXPOSE_HEADERS →
    name ≠ ACCESS_CONTROL_ALLOW_CREDENTIALS → name ≠ VARY →
      response.headers.getAll name = original.headers.getAll name) ∧
  (response.headers.getAll VARY = original.headers.getAll VARY ∨
    response.headers.getAll VARY = original.headers.getAll VARY ++ [.ofString "origin"])

theorem varyOriginResponder_frame (responder : Val) :
    ∃ response, varyOriginResponder [responder] = [.response response] ∧
      CorsFrame responder.intoResponse response := by
  refine ⟨_, rfl, rfl, fun name _ _ _ h4 => ?_, .inr ?_⟩
  · simp [varyOrigin, HeaderMap.getAll_append, Ne.symm h4]
  · simp [varyOrigin, HeaderMap.getAll_append]

theorem Cors.applyHeaders_frame (c : Cors) (origin : HeaderValue) (vary : Bool) (responder : Val) :
    ∃ response, c.applyHeaders origin vary [responder] = [.response response] ∧
      CorsFrame responder.intoResponse response := by
  refine ⟨_, rfl, ?_, fun name h1 h2 h3 h4 => ?_, ?_⟩
  · rcases c.exposeHeaders with _ | value <;> cases c.credentials <;> cases vary <;> rfl
  · rcases hx : c.exposeHeaders with _ | value <;> cases c.credentials <;> cases vary <;>
      simp [Cors.applyHeaders, hx, Response.withHeader, varyOrigin, HeaderMap.getAll_insert,
        HeaderMap.getAll_append, Ne.symm h1, Ne.symm h2, Ne.symm h3, Ne.symm h4]
  · rcases hx : c.exposeHeaders with _ | value <;> cases c.credentials <;> cases vary <;>
      simp [Cors.applyHeaders, hx, Response.withHeader, varyOrigin, HeaderMap.getAll_insert,
        HeaderMap.getAll_append, VARY, ACCESS_CONTROL_ALLOW_ORIGIN, ACCESS_CONTROL_EXPOSE_HEADERS,
        ACCESS_CONTROL_ALLOW_CREDENTIALS]

/-- `wrapped` is `run` seen through a wrapper that touches only its responses, and those
only within `CorsFrame`: the same state, errors and forwards. -/
def CorsRunFrame (run wrapped : RequestOutcome Tuple Tuple) : Prop :=
  wrapped.requestState = run.requestState ∧
  (∀ error, wrapped.outcome = .error error ↔ run.outcome = .error error) ∧
  (∀ input forwarding, wrapped.outcome = .forward input forwarding ↔ run.outcome = .forward input forwarding) ∧
  ∀ responder, run.outcome = .success [responder] →
    ∃ response, wrapped.outcome = .success [.response response] ∧ CorsFrame responder.intoResponse response

theorem corsRunFrame_map {g : Tuple → Tuple}
    (hg : ∀ responder, ∃ response, g [responder] = [.response response] ∧ CorsFrame responder.intoResponse response)
    (run : RequestOutcome Tuple Tuple) : CorsRunFrame run (run.map g) := by
  refine ⟨rfl, fun error => Outcome.map_eq_error, fun input forwarding => Outcome.map_eq_forward,
    fun responder hr => ?_⟩
  obtain ⟨response, hresp, hframe⟩ := hg responder
  exact ⟨response, by rw [RequestOutcome.map, hr, Outcome.map, hresp], hframe⟩

/-- **The wrapper is transparent to the wrapped filter.**  For every `Cors`, wrapped filter,
request, state and input, the wrapper either answers by itself a request with an
`Origin`, in the state it was given, with the preflight answer for that origin to
`OPTIONS` or with 403, or runs the wrapped filter and hands back its state, its errors
and its forwards unchanged, and answers each of its responders with a response that
differs only in the three `Access-Control-*` headers it sets and an `origin` appended to
`Vary`. -/
theorem cors_transparent (c : Cors) (f : Filter) (request : Request) (st : RequestState) (input : Tuple) :
    (∃ origin, request.header ORIGIN = some origin ∧
      ((request.method = .options ∧
          (Filter.cors c f).execute request st input = ⟨st, .success [.response (c.preflight request origin)]⟩) ∨
        (Filter.cors c f).execute request st input = ⟨st, .success [.response Cors.forbidden]⟩)) ∨
      CorsRunFrame (f.execute request st input) ((Filter.cors c f).execute request st input) := by
  rcases c.dispatch_cases request with ⟨-, hd⟩ | ⟨origin, ho, hopt, hd⟩ | ⟨origin, ho, -, -, hd⟩ |
    ⟨origin, -, -, -, ⟨-, hd⟩ | ⟨-, hd⟩⟩
  · exact .inr (by simpa only [Filter.execute, hd] using corsRunFrame_map varyOriginResponder_frame _)
  · exact .inl ⟨origin, ho, .inl ⟨hopt, Cors.execute_of_respond hd⟩⟩
  · exact .inl ⟨origin, ho, .inr (Cors.execute_of_respond hd)⟩
  · exact .inr (by rw [Cors.execute_of_applyHeaders hd]; exact corsRunFrame_map (c.applyHeaders_frame origin true) _)
  · exact .inr (by rw [Cors.execute_of_applyHeaders hd]; exact corsRunFrame_map (c.applyHeaders_frame _ false) _)

/-! ## Who reaches the wrapped filter -/

open ConfigCall (AnyOriginLast OriginNamed)

/-- Whether builder calls let a request from `origin` with `method` reach the wrapped
filter: they granted the origin, as any origin or as one named after the last
`any_origin`, and named the method. -/
def Admits (calls : List ConfigCall) (origin : HeaderValue) (method : Method) : Prop :=
  (AnyOriginLast calls ∨ ∃ o, OriginNamed calls o ∧ HeaderValue.ofString o = origin) ∧
    ConfigCall.method method ∈ calls

theorem Config.apply_eq_ok {config : Config} {f w : Filter} (h : config.apply f = .ok w) :
    w = .cors (Cors.new config) f := by
  unfold Config.apply at h
  split_ifs at h
  exact (Except.ok.inj h).symm

/-- How the `Cors` of a run classifies an origin. -/
theorem checkOrigin_build {calls : List ConfigCall} {config : Config} (h : Config.build calls = .ok config)
    (origin : HeaderValue) :
    ((Cors.new config).checkOrigin origin = .any ↔ AnyOriginLast calls) ∧
      ((Cors.new config).checkOrigin origin = .allowed ↔
        ¬AnyOriginLast calls ∧ ∃ o, OriginNamed calls o ∧ HeaderValue.ofString o = origin) := by
  obtain ⟨hnone, hmem⟩ := Config.origins_build h
  unfold Cors.checkOrigin Cors.new
  rcases hos : config.origins with _ | os <;> dsimp only
  · simp [hnone.mp hos]
  · have hnot : ¬AnyOriginLast calls := fun hany => by simp [hnone.mpr hany] at hos
    simp only [hos, Option.getD_some] at hmem
    split_ifs with hfound
    · simp only [List.any_eq_true, decide_eq_true_eq] at hfound
      obtain ⟨o, ho, heq⟩ := hfound
      exact ⟨by simp [hnot], iff_of_true rfl ⟨hnot, o, (hmem o).mp ho, heq⟩⟩
    · simp only [List.any_eq_true, decide_eq_true_eq, not_exists, not_and] at hfound
      refine ⟨by simp [hnot], iff_of_false (by simp) ?_⟩
      rintro ⟨-, o, ho, heq⟩
      exact hfound o ((hmem o).mpr ho) heq

/-- **Who reaches the wrapped filter.**  For the filter `Config::apply` makes after a
run of builder calls, a request with an `Origin` that is not a preflight runs the
wrapped filter exactly when the calls admit its origin and method: then the wrapped
filter's outcome comes back with its success decorated, by `*` when `any_origin` was
the last origin call and by the origin otherwise; else the answer is 403 and the
wrapped filter does not run. -/
theorem apply_build_admits {calls : List ConfigCall} {config : Config} (hbuild : Config.build calls = .ok config)
    {f w : Filter} (happly : config.apply f = .ok w) {request : Request} {origin : HeaderValue}
    (horigin : request.header ORIGIN = some origin) (hoptions : request.method ≠ .options)
    (st : RequestState) (input : Tuple) :
    (Admits calls origin request.method → AnyOriginLast calls →
      w.execute request st input =
        (f.execute request st input).map ((Cors.new config).applyHeaders (.ofString "*") false)) ∧
    (Admits calls origin request.method → ¬AnyOriginLast calls →
      w.execute request st input = (f.execute request st input).map ((Cors.new config).applyHeaders origin true)) ∧
    (¬Admits calls origin request.method →
      w.execute request st input = ⟨st, .success [.response Cors.forbidden]⟩) := by
  obtain rfl := Config.apply_eq_ok happly
  obtain ⟨hany, hallowed⟩ := checkOrigin_build hbuild origin
  have hmethods := Config.mem_methods_build hbuild request.method
  rcases (Cors.new config).dispatch_cases request with
    ⟨hnone, -⟩ | ⟨_, -, hopt, -⟩ | ⟨origin', ho, -, hrefused, hd⟩ | ⟨origin', ho, -, hm, hd⟩
  · exact absurd (hnone.symm.trans horigin) (by simp)
  · exact absurd hopt hoptions
  · obtain rfl : origin = origin' := Option.some.inj (horigin.symm.trans ho)
    have hnot : ¬Admits calls origin request.method := by
      rintro ⟨hgrant, hcall⟩
      rcases hrefused with hdis | hm
      · by_cases hlast : AnyOriginLast calls
        · simp [hany.mpr hlast] at hdis
        · simp [hallowed.mpr ⟨hlast, hgrant.resolve_left hlast⟩] at hdis
      · exact hm (hmethods.mpr hcall)
    exact ⟨fun h => absurd h hnot, fun h => absurd h hnot, fun _ => Cors.execute_of_respond hd⟩
  · obtain rfl : origin = origin' := Option.some.inj (horigin.symm.trans ho)
    have hcall := hmethods.mp hm
    rcases hd with ⟨hc, hd⟩ | ⟨hc, hd⟩
    · exact ⟨fun _ hlast => absurd hlast (hallowed.mp hc).1, fun _ _ => Cors.execute_of_applyHeaders hd,
        fun h => absurd ⟨.inr (hallowed.mp hc).2, hcall⟩ h⟩
    · exact ⟨fun _ _ => Cors.execute_of_applyHeaders hd, fun _ hlast => absurd (hany.mp hc) hlast,
        fun h => absurd ⟨.inl (hany.mp hc), hcall⟩ h⟩

/-- `origin("https://a.example")`, `any_origin()`, `origin("https://b.example")` and
`method("GET")`: the last origin call overrides `any_origin`, so a `GET` from
`https://a.example` is answered 403. -/
theorem apply_build_admits_overridden :
    let calls := [ConfigCall.origin "https://a.example", .anyOrigin, .origin "https://b.example", .method .get]
    let config : Config := ⟨some ["https://b.example"], [.get], [], [], none, false⟩
    let f : Filter := .leaf (.extract fun _ => .str "hello")
    let request : Request := ⟨.get, [47], [(ORIGIN, .ofString "https://a.example")]⟩
    (Config.build calls = .ok config ∧ config.apply f = .ok (.cors (Cors.new config) f) ∧
      request.header ORIGIN = some (.ofString "https://a.example") ∧ request.method ≠ .options ∧
      ¬Admits calls (.ofString "https://a.example") request.method) ∧
    (Filter.cors (Cors.new config) f).execute request (.new []) [] =
      ⟨.new [], .success [.response Cors.forbidden]⟩ := by
  intro calls config f request
  have hbuild : Config.build calls = .ok config := rfl
  have hnot : ¬Admits calls (.ofString "https://a.example") request.method := by
    obtain ⟨hnone, hmem⟩ := Config.origins_build hbuild
    rintro ⟨hlast | ⟨o, hnamed, heq⟩, -⟩
    · exact absurd (hnone.mpr hlast) (by simp [config])
    · obtain rfl : o = "https://b.example" := by simpa [config] using (hmem o).mpr hnamed
      revert heq
      simp only [HeaderValue.ofString_eq]
      decide
  exact ⟨⟨hbuild, rfl, rfl, by decide, hnot⟩,
    (apply_build_admits hbuild rfl (show request.header ORIGIN = some (.ofString "https://a.example") from rfl)
      (by decide) (.new []) []).2.2 hnot⟩

end Myth
