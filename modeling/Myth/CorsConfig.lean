import Myth.Filter

/-!
# Building a CORS configuration (`security/origin.rs`)

`Config::new()` allows no origin and no method; each builder call changes one field,
and `Config::apply` asserts that some origin and some method are allowed before it
wraps a filter in `Cors`.  A builder call is a `ConfigCall`, its argument already
converted (the `TryInto` panics on an invalid method or header name are left out), and
`Config.build` is `Config::new()` followed by a list of calls, a panic being its error.

The builder's documentation is the specification: `origin` after `any_origin`
overrides it and the other way round, adding a method or a header twice does nothing,
and `OPTIONS` is never a method.

    build_wf          : every configuration the builder reaches lists no method twice
                        and never `OPTIONS`, and no header twice
    mem_methods_build : its methods are those named by `method` calls
    origins_build     : it allows any origin exactly when `any_origin` is the last call
                        that sets the origins, and otherwise the origins named after it
    apply_build       : `apply` panics exactly when no call set the origins, or none
                        named a method, with the message of that assertion
-/

namespace Myth

/-- `if !list.contains(&x) { list.push(x) }`, how `method`, `allow_header` and
`expose_header` add to their lists. -/
def pushNew {α : Type} [DecidableEq α] (xs : List α) (x : α) : List α :=
  if x ∈ xs then xs else xs ++ [x]

theorem mem_pushNew {α : Type} [DecidableEq α] {xs : List α} {x y : α} :
    y ∈ pushNew xs x ↔ y ∈ xs ∨ y = x := by
  unfold pushNew
  split_ifs with h
  · exact ⟨.inl, fun hy => hy.elim id (· ▸ h)⟩
  · simp

theorem nodup_pushNew {α : Type} [DecidableEq α] {xs : List α} (h : xs.Nodup) (x : α) :
    (pushNew xs x).Nodup := by
  unfold pushNew
  split_ifs with hx
  · exact h
  · exact List.pairwise_append.mpr ⟨h, List.pairwise_singleton _ x, fun a ha b hb => by
      rintro rfl
      exact hx (List.mem_singleton.mp hb ▸ ha)⟩

/-- A call of `Config`'s builder, its argument converted. -/
inductive ConfigCall where
  | origin (origin : String)
  | anyOrigin
  | method (method : Method)
  | allowHeader (name : HeaderName)
  | exposeHeader (name : HeaderName)
  /-- `max_age`, by its whole seconds. -/
  | maxAge (secs : Nat)
  | credentials
  deriving DecidableEq

namespace ConfigCall

/-- Whether a call sets the origins: `origin` or `any_origin`. -/
def setsOrigin : ConfigCall → Bool
  | origin _ | anyOrigin => true
  | _ => false

/-- Whether a call is `method`. -/
def isMethod : ConfigCall → Bool
  | method _ => true
  | _ => false

/-- `any_origin` is the last call that sets the origins. -/
def AnyOriginLast (calls : List ConfigCall) : Prop :=
  ∃ pre post, calls = pre ++ anyOrigin :: post ∧ ∀ c ∈ post, c.setsOrigin = false

/-- `origin(o)` is called after the last `any_origin`. -/
def OriginNamed (calls : List ConfigCall) (o : String) : Prop :=
  ∃ pre post, calls = pre ++ origin o :: post ∧ anyOrigin ∉ post

/-- Where an element of `l ++ [c]` sits: it is `c`, or it is in `l`. -/
theorem split_append_singleton {l pre post : List ConfigCall} {c x : ConfigCall}
    (h : l ++ [c] = pre ++ x :: post) : c = x ∨ ∃ post', post = post' ++ [c] ∧ l = pre ++ x :: post' := by
  rcases List.eq_nil_or_concat post with rfl | ⟨post', d, rfl⟩
  · exact .inl (List.singleton_inj.mp (List.append_inj' h rfl).2)
  · rw [List.concat_eq_append, ← List.cons_append, ← List.append_assoc] at h
    obtain ⟨hl, hc⟩ := List.append_inj' h rfl
    exact .inr ⟨post', by rw [List.concat_eq_append, List.singleton_inj.mp hc], hl⟩

theorem not_anyOriginLast_nil : ¬AnyOriginLast [] := by
  rintro ⟨pre, post, h, -⟩
  simp at h

theorem not_originNamed_nil (o : String) : ¬OriginNamed [] o := by
  rintro ⟨pre, post, h, -⟩
  simp at h

theorem anyOriginLast_append {calls : List ConfigCall} {c : ConfigCall} :
    AnyOriginLast (calls ++ [c]) ↔ c = anyOrigin ∨ (AnyOriginLast calls ∧ c.setsOrigin = false) := by
  constructor
  · rintro ⟨pre, post, h, hpost⟩
    rcases split_append_singleton h with rfl | ⟨post', rfl, rfl⟩
    · exact .inl rfl
    · simp only [List.mem_append, List.mem_singleton] at hpost
      exact .inr ⟨⟨pre, post', rfl, fun c hc => hpost c (.inl hc)⟩, hpost c (.inr rfl)⟩
  · rintro (rfl | ⟨⟨pre, post, rfl, hpost⟩, hc⟩)
    · exact ⟨calls, [], rfl, by simp⟩
    · refine ⟨pre, post ++ [c], by simp, fun c' hc' => ?_⟩
      rcases List.mem_append.mp hc' with h | h
      · exact hpost c' h
      · exact (List.mem_singleton.mp h) ▸ hc

theorem originNamed_append {calls : List ConfigCall} {c : ConfigCall} {o : String} :
    OriginNamed (calls ++ [c]) o ↔ c = origin o ∨ (OriginNamed calls o ∧ c ≠ anyOrigin) := by
  constructor
  · rintro ⟨pre, post, h, hpost⟩
    rcases split_append_singleton h with rfl | ⟨post', rfl, rfl⟩
    · exact .inl rfl
    · simp only [List.mem_append, List.mem_singleton, not_or] at hpost
      exact .inr ⟨⟨pre, post', rfl, hpost.1⟩, Ne.symm hpost.2⟩
  · rintro (rfl | ⟨⟨pre, post, rfl, hpost⟩, hc⟩)
    · exact ⟨calls, [], rfl, by simp⟩
    · exact ⟨pre, post ++ [c], by simp, by simp [hpost, Ne.symm hc]⟩

end ConfigCall

open ConfigCall

namespace Config

/-- `Config::new`: no origin, no method, no header allowed or exposed, no max age and
no credentials. -/
def new : Config := ⟨some [], [], [], [], none, false⟩

/-- `Config::origin`: adds to the listed origins, in place of any origin. -/
def origin (config : Config) (origin : String) : Config :=
  { config with origins := some (config.origins.getD [] ++ [origin]) }

/-- `Config::any_origin`. -/
def anyOrigin (config : Config) : Config := { config with origins := none }

/-- `Config::method`, which panics on `OPTIONS`. -/
def method (config : Config) (method : Method) : Except String Config :=
  if method = .options then .error "Method cannot be OPTIONS"
  else .ok { config with methods := pushNew config.methods method }

/-- `Config::allow_header`. -/
def allowHeader (config : Config) (name : HeaderName) : Config :=
  { config with allowHeaders := pushNew config.allowHeaders name }

/-- `Config::expose_header`. -/
def exposeHeader (config : Config) (name : HeaderName) : Config :=
  { config with exposeHeaders := pushNew config.exposeHeaders name }

/-- `Config::max_age`, by the whole seconds `preflight_headers` sends. -/
def setMaxAge (config : Config) (secs : Nat) : Config := { config with maxAge := some secs }

/-- `Config::credentials`. -/
def setCredentials (config : Config) : Config := { config with credentials := true }

/-- One builder call on `config`, or the message it panics with. -/
def call (config : Config) : ConfigCall → Except String Config
  | .origin o => .ok (config.origin o)
  | .anyOrigin => .ok config.anyOrigin
  | .method m => config.method m
  | .allowHeader name => .ok (config.allowHeader name)
  | .exposeHeader name => .ok (config.exposeHeader name)
  | .maxAge secs => .ok (config.setMaxAge secs)
  | .credentials => .ok config.setCredentials

/-- `Config::new()` followed by `calls`, in order. -/
def build (calls : List ConfigCall) : Except String Config := calls.foldlM call new

/-- `Config::apply`: the assertion it fails, or `Cors` around `filter`. -/
def apply (config : Config) (filter : Filter) : Except String Filter :=
  if config.origins = some [] then
    .error "Neither `origin` or `any_origin` was called, so no origins are allowed."
  else if config.methods = [] then .error "`method` was not called, so no methods are allowed."
  else .ok (.cors (Cors.new config) filter)

/-- What every configuration the builder reaches satisfies. -/
structure Wf (config : Config) : Prop where
  methods_nodup : config.methods.Nodup
  options_not_mem : Method.options ∉ config.methods
  allowHeaders_nodup : config.allowHeaders.Nodup
  exposeHeaders_nodup : config.exposeHeaders.Nodup

/-! ## One call -/

variable {config config' : Config} {c : ConfigCall}

theorem method_eq_ok {m : Method} :
    config.method m = .ok config' ↔ m ≠ .options ∧ config' = { config with methods := pushNew config.methods m } := by
  unfold method
  split_ifs with h <;> simp [h, eq_comm]

theorem call_origins (h : config.call c = .ok config') :
    config'.origins = match c with
      | .origin o => some (config.origins.getD [] ++ [o])
      | .anyOrigin => none
      | _ => config.origins := by
  cases c <;> simp only [call, Except.ok.injEq, method_eq_ok] at h
  case method => obtain ⟨-, rfl⟩ := h; rfl
  all_goals subst h; rfl

theorem call_mem_methods (h : config.call c = .ok config') (m : Method) :
    m ∈ config'.methods ↔ m ∈ config.methods ∨ c = .method m := by
  cases c <;> simp only [call, Except.ok.injEq, method_eq_ok] at h
  case method m' =>
    obtain ⟨-, rfl⟩ := h
    simp [mem_pushNew, eq_comm]
  all_goals subst h; simp [origin, anyOrigin, allowHeader, exposeHeader, setMaxAge, setCredentials]

theorem call_wf (hwf : config.Wf) (h : config.call c = .ok config') : config'.Wf := by
  cases c <;> simp only [call, Except.ok.injEq, method_eq_ok] at h
  case method m =>
    obtain ⟨hm, rfl⟩ := h
    exact ⟨nodup_pushNew hwf.methods_nodup m,
      fun hmem => (mem_pushNew.mp hmem).elim hwf.options_not_mem (hm ∘ Eq.symm),
      hwf.allowHeaders_nodup, hwf.exposeHeaders_nodup⟩
  case allowHeader name =>
    subst h
    exact { hwf with allowHeaders_nodup := nodup_pushNew hwf.allowHeaders_nodup name }
  case exposeHeader name =>
    subst h
    exact { hwf with exposeHeaders_nodup := nodup_pushNew hwf.exposeHeaders_nodup name }
  all_goals subst h; exact ⟨hwf.1, hwf.2, hwf.3, hwf.4⟩

/-! ## Runs -/

theorem build_append_eq_ok {calls : List ConfigCall} :
    build (calls ++ [c]) = .ok config' ↔ ∃ config, build calls = .ok config ∧ config.call c = .ok config' := by
  simp only [build, List.foldlM_append, List.foldlM_cons, List.foldlM_nil, bind_pure]
  rcases List.foldlM call new calls with e | config <;> simp [bind, Except.bind]

/-- **Induction over builder runs.**  What holds of `Config::new()`, and holds after one
more call whenever it held before, holds of every configuration a run reaches. -/
theorem build_induction {motive : List ConfigCall → Config → Prop} (nil : motive [] new)
    (snoc : ∀ calls c config config', build calls = .ok config → motive calls config →
      config.call c = .ok config' → motive (calls ++ [c]) config')
    (calls : List ConfigCall) {config : Config} (h : build calls = .ok config) : motive calls config := by
  induction calls using List.reverseRecOn generalizing config with
  | nil => exact (Except.ok.inj h) ▸ nil
  | append_singleton calls c ih =>
    obtain ⟨mid, hmid, hc⟩ := build_append_eq_ok.mp h
    exact snoc calls c mid config hmid (ih hmid) hc

/-- **Every configuration the builder reaches is well formed**: no method twice and
never `OPTIONS`, so `Access-Control-Allow-Methods` names each method once, and no
header allowed or exposed twice. -/
theorem build_wf (calls : List ConfigCall) (h : build calls = .ok config) : config.Wf :=
  build_induction (motive := fun _ config => config.Wf)
    ⟨List.nodup_nil, List.not_mem_nil _, List.nodup_nil, List.nodup_nil⟩
    (fun _ _ _ _ _ hwf hc => call_wf hwf hc) calls h

/-- A method and a header named twice are kept once. -/
theorem build_wf_twice :
    let calls := [ConfigCall.origin "https://a.example", .method .get, .method .get,
      .allowHeader ⟨"x-a"⟩, .allowHeader ⟨"x-a"⟩]
    let config : Config := ⟨some ["https://a.example"], [.get], [⟨"x-a"⟩], [], none, false⟩
    build calls = .ok config ∧ config.Wf := by
  intro calls config
  exact ⟨rfl, build_wf calls rfl⟩

/-- The methods a run allows are those its `method` calls name. -/
theorem mem_methods_build {calls : List ConfigCall} (h : build calls = .ok config) (m : Method) :
    m ∈ config.methods ↔ ConfigCall.method m ∈ calls :=
  build_induction (motive := fun calls config => ∀ m, m ∈ config.methods ↔ .method m ∈ calls)
    (fun m => by simp [new])
    (fun _ _ _ _ _ ih hc m => by simp [call_mem_methods hc, ih, eq_comm]) calls h m

/-- The origins a run allows: any origin exactly when `any_origin` is the last call
that sets them, and otherwise those named by `origin` after the last `any_origin`. -/
theorem origins_build {calls : List ConfigCall} (h : build calls = .ok config) :
    (config.origins = none ↔ AnyOriginLast calls) ∧
      ∀ o, o ∈ config.origins.getD [] ↔ OriginNamed calls o := by
  refine build_induction (motive := fun calls config => (config.origins = none ↔ AnyOriginLast calls) ∧
      ∀ o, o ∈ config.origins.getD [] ↔ OriginNamed calls o)
    ⟨by simp [new, not_anyOriginLast_nil], by simp [new, not_originNamed_nil]⟩ ?_ calls h
  rintro calls c config config' - ⟨ihnone, ihmem⟩ hc
  rw [call_origins hc, anyOriginLast_append]
  cases c <;> simp [originNamed_append, setsOrigin, ihnone, ihmem, or_comm, eq_comm]

theorem origins_build_eq_some_nil {calls : List ConfigCall} (h : build calls = .ok config) :
    config.origins = some [] ↔ calls.any setsOrigin = false :=
  build_induction (motive := fun calls config => config.origins = some [] ↔ calls.any setsOrigin = false)
    (by simp [new])
    (fun _ c _ _ _ ih hc => by dsimp only at ih ⊢; rw [call_origins hc]; cases c <;> simp [setsOrigin, ih]) calls h

theorem methods_build_eq_nil {calls : List ConfigCall} (h : build calls = .ok config) :
    config.methods = [] ↔ calls.any isMethod = false := by
  rw [List.eq_nil_iff_forall_not_mem, List.any_eq_false]
  refine ⟨fun hnone c hc => ?_, fun hall m hm => ?_⟩
  · cases c with
    | method m => exact absurd ((mem_methods_build h m).mpr hc) (hnone m)
    | _ => exact Bool.false_ne_true
  · simpa [isMethod] using hall _ ((mem_methods_build h m).mp hm)

/-- **`apply` panics exactly when a builder call was missing.**  After a run, `apply`
wraps the filter when some call set the origins and some call named a method;
otherwise it fails the first assertion that finds one missing, with its message. -/
theorem apply_build {calls : List ConfigCall} (h : build calls = .ok config) (filter : Filter) :
    config.apply filter =
      if calls.any setsOrigin then
        if calls.any isMethod then .ok (.cors (Cors.new config) filter)
        else .error "`method` was not called, so no methods are allowed."
      else .error "Neither `origin` or `any_origin` was called, so no origins are allowed." := by
  have ho := origins_build_eq_some_nil h
  have hm := methods_build_eq_nil h
  unfold apply
  cases hs : calls.any setsOrigin <;> cases hi : calls.any isMethod <;> simp [ho, hm, hs, hi]

/-- `any_origin()` alone: `apply` panics for want of a method. -/
theorem apply_build_no_method :
    let config : Config := ⟨none, [], [], [], none, false⟩
    build [.anyOrigin] = .ok config ∧
      config.apply (.leaf .any) = .error "`method` was not called, so no methods are allowed." := by
  intro config
  exact ⟨rfl, apply_build (show build [.anyOrigin] = .ok config from rfl) (.leaf .any)⟩

end Config

end Myth
