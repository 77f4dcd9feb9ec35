import Myth.SpelledPath

/-!
# Routes of literals may be declared in any order (`filter/or.rs`, `path.rs`)

An `or()` router answers with the first route that does not forward
(`routerOutcome`), so in general the order of its routes matters.  It does not for
routes that never answer the same path: two adjacent such routes commute
(`routerOutcome_swap`).  Routes of literals with different literals are such routes,
since a route of literals answers, with a match or a redirect, only the paths whose
decoded pieces are its literals (`values_eq_of_answers`).

    execute_staticRouter_perm : two `or()` trees whose branches are the same routes of
                                literals, with no two alike, in any order, answer every
                                request alike

With a method filter after each route, two routes that take the same path may both
stay: what they must not share is the method, since the reasons of the others are
combined by a commutative `combine`, so the `405` and its `Allow` do not depend on the
order either (`methodRouterOutcome_swap`).

    execute_staticMethodRouter_perm : the same for routes of literals with a method, no
                                      two with the same literals and method
-/

namespace Myth

/-! ## Routers whose routes exclude each other -/

/-- The route handler passes the path on to the next one. -/
def RouteHandler.Forwards (path : List UInt8) (r : RouteHandler) : Prop :=
  ∃ input reason, routeOutcome path.dropLast (r.first :: r.rest) (pieces path) = .forward input reason

/-- Two adjacent routes of which one forwards may be swapped. -/
theorem routerOutcome_swap (path : List UInt8) {a b : RouteHandler} (routes : List RouteHandler)
    (h : a.Forwards path ∨ b.Forwards path) :
    routerOutcome path (a :: b :: routes) = routerOutcome path (b :: a :: routes) := by
  rcases h with ⟨input, reason, ha⟩ | ⟨input, reason, hb⟩
  · simp only [routerOutcome, ha]
  · simp only [routerOutcome, hb]

theorem routerOutcome_cons (path : List UInt8) (r : RouteHandler) {routes routes' : List RouteHandler}
    (h : routerOutcome path routes = routerOutcome path routes') :
    routerOutcome path (r :: routes) = routerOutcome path (r :: routes') := by
  simp only [routerOutcome, h]

/-- Routes of which no two answer the path give the same answer in any order. -/
theorem routerOutcome_perm {α : Type} (handler : α → RouteHandler) (path : List UInt8) {key : α → List String}
    (hkey : ∀ a b, ¬(handler a).Forwards path → ¬(handler b).Forwards path → key a = key b)
    {routes routes' : List α} (hperm : routes.Perm routes') :
    (routes.map key).Nodup → routerOutcome path (routes.map handler) = routerOutcome path (routes'.map handler) := by
  induction hperm with
  | nil => intro _; rfl
  | cons r _ ih =>
    intro hnodup
    exact routerOutcome_cons path (handler r) (ih (List.nodup_cons.mp hnodup).2)
  | swap a b routes =>
    intro hnodup
    have hne : key b ≠ key a := fun heq => (List.nodup_cons.mp hnodup).1 (heq ▸ List.mem_cons_self _ _)
    exact routerOutcome_swap path _ (Classical.byContradiction fun hboth =>
      hne (hkey b a (fun hb => hboth (.inl hb)) (fun ha => hboth (.inr ha))))
  | trans p₁ _ ih₁ ih₂ =>
    intro hnodup
    exact (ih₁ hnodup).trans (ih₂ ((p₁.map key).nodup_iff.mp hnodup))

/-! ## Routes of literals -/

/-- A route of literals ended by `end()` and its handler:
`literal(v1).and(…).and(literal(vn)).and(path::end()).handle(handler)`. -/
structure StaticRoute where
  first : Literal
  rest : List Literal
  handler : Tuple → Except BoxedFilterError Val

namespace StaticRoute

/-- The route handler of the route. -/
def toRouteHandler (r : StaticRoute) : RouteHandler := ⟨.literal r.first, r.rest.map .literal, r.handler⟩

/-- The texts of the route's literals, in order. -/
def values (r : StaticRoute) : List String := (r.first :: r.rest).map Literal.value

/-- The pieces a route of literals compares with its literals: all of them, or all but a
last empty one, which `end()` redirects. -/
def comparedPieces (ps : List (List UInt8)) : List (List UInt8) :=
  if ps.getLast? = some [] then ps.dropLast else ps

theorem routeMatch_eq_some {r : StaticRoute} {ps : List (List UInt8)} {values : Tuple}
    (h : routeMatch (Step.literal r.first :: r.rest.map Step.literal) ps = some values) : ps.map decode = r.values := by
  rw [show Step.literal r.first :: r.rest.map Step.literal = (r.first :: r.rest).map Step.literal from rfl,
    routeMatch_eq_acceptTexts, acceptTexts_literals_eq_some] at h
  exact h.2

/-- A route of literals answers only paths whose compared pieces decode to its literals. -/
theorem values_eq_of_answers {r : StaticRoute} {path : List UInt8} (h : ¬r.toRouteHandler.Forwards path) :
    (comparedPieces (pieces path)).map decode = r.values := by
  simp only [RouteHandler.Forwards, toRouteHandler, routeOutcome, not_exists] at h
  unfold comparedPieces
  split_ifs at h ⊢ with hlast hm
  · obtain ⟨values, hv⟩ := Option.isSome_iff_exists.mp hm
    exact routeMatch_eq_some hv
  · exact absurd rfl (h [] .notFound)
  · rcases hm : routeMatch (Step.literal r.first :: r.rest.map Step.literal) (pieces path) with _ | values
    · rw [hm] at h
      exact absurd rfl (h [] .notFound)
    · exact routeMatch_eq_some hm

end StaticRoute

/-- **Routes of literals may be declared in any order.**  For every two `or()` trees,
of any shape, whose branches are the same routes of literals ended by `end()` in two
orders, no two of them with the same literals, every request and every state whose
cursor is at the start of the path, the two trees answer alike: each path is answered
by the one route whose literals it spells, or by none. -/
theorem execute_staticRouter_perm (f f' : Filter) {routes routes' : List StaticRoute} (hperm : routes.Perm routes')
    (hdistinct : (routes.map StaticRoute.values).Nodup)
    (hf : f.orBranches = (routes.map StaticRoute.toRouteHandler).map RouteHandler.filter)
    (hf' : f'.orBranches = (routes'.map StaticRoute.toRouteHandler).map RouteHandler.filter)
    (request : Request) (st : RequestState) (h0 : st.currentPathIndex = 0) :
    (f.execute request st []).outcome = (f'.execute request st []).outcome := by
  rw [Filter.execute_outcome_orFallback, hf, h0, orFallback_routes request _ st h0,
    Filter.execute_outcome_orFallback, hf', h0, orFallback_routes request _ st h0]
  exact routerOutcome_perm StaticRoute.toRouteHandler request.fullPath
    (fun a b ha hb => (StaticRoute.values_eq_of_answers ha).symm.trans (StaticRoute.values_eq_of_answers hb))
    hperm hdistinct

/-- `literal("a")` and `literal("b")`, each ended by `end()`, in the two orders. -/
theorem execute_staticRouter_perm_swap :
    let a : StaticRoute := ⟨⟨"a", by decide, by decide⟩, [], fun _ => .ok (.str "a")⟩
    let b : StaticRoute := ⟨⟨"b", by decide, by decide⟩, [], fun _ => .ok (.str "b")⟩
    let f := Filter.or a.toRouteHandler.filter b.toRouteHandler.filter
    let f' := Filter.or b.toRouteHandler.filter a.toRouteHandler.filter
    let request : Request := ⟨.get, [47, 98], []⟩
    [a, b].Perm [b, a] ∧ ([a, b].map StaticRoute.values).Nodup ∧
      f.orBranches = ([a, b].map StaticRoute.toRouteHandler).map RouteHandler.filter ∧
      f'.orBranches = ([b, a].map StaticRoute.toRouteHandler).map RouteHandler.filter ∧
      (RequestState.new []).currentPathIndex = 0 ∧
      (f.execute request (.new []) []).outcome = (f'.execute request (.new []) []).outcome := by
  intro a b f f' request
  have hperm : [a, b].Perm [b, a] := List.Perm.swap b a []
  have hdistinct : ([a, b].map StaticRoute.values).Nodup := by decide
  exact ⟨hperm, hdistinct, rfl, rfl, rfl,
    execute_staticRouter_perm f f' hperm hdistinct rfl rfl request (.new []) rfl⟩

/-! ## Routes of literals with a method -/

theorem routeOutcome_eq_error {location : List UInt8} {steps : List Step} {ps : List (List UInt8)}
    {error : BoxedFilterError} (h : routeOutcome location steps ps = .error error) :
    error = .redirect location ∧ ps.getLast? = some [] := by
  unfold routeOutcome at h
  split_ifs at h with hlast
  · cases h
    exact ⟨rfl, hlast⟩
  · split at h <;> cases h

/-- Two adjacent method routes may be swapped unless both take the path with one method. -/
theorem methodRouterOutcome_swap (path : List UInt8) (method : Method) {a b : MethodRoute}
    (routes : List MethodRoute) (reason : Forwarding)
    (h : a.takes path = true → b.takes path = true → a.method ≠ b.method) :
    methodRouterOutcome path method (a :: b :: routes) reason =
      methodRouterOutcome path method (b :: a :: routes) reason := by
  unfold MethodRoute.takes at h
  cases ha : routeOutcome path.dropLast (a.first :: a.rest) (pieces path) with
  | success va =>
    cases hb : routeOutcome path.dropLast (b.first :: b.rest) (pieces path) with
    | success vb =>
      rw [ha, hb] at h
      have hne := h rfl rfl
      by_cases hA : method = a.method
      · have hB : method ≠ b.method := fun hB => hne (hA.symm.trans hB)
        simp only [methodRouterOutcome, ha, hb, hA, hB, hne, if_true, if_false]
      · by_cases hB : method = b.method
        · simp only [methodRouterOutcome, ha, hb, hA, hB, Ne.symm hne, if_true, if_false]
        · simp only [methodRouterOutcome, ha, hb, hA, hB, if_false, Forwarding.combine_assoc,
            Forwarding.combine_comm (.methodNotAllowed (.ofMethod a.method))]
    | error eb =>
      exact absurd (routeOutcome_eq_error hb).2 (routeOutcome_eq_success_iff.mp ha).1
    | forward => simp only [methodRouterOutcome, ha, hb]
  | error ea =>
    cases hb : routeOutcome path.dropLast (b.first :: b.rest) (pieces path) with
    | success vb => exact absurd (routeOutcome_eq_error ha).2 (routeOutcome_eq_success_iff.mp hb).1
    | error eb => simp only [methodRouterOutcome, ha, hb, (routeOutcome_eq_error ha).1, (routeOutcome_eq_error hb).1]
    | forward => simp only [methodRouterOutcome, ha, hb]
  | forward => cases hb : routeOutcome path.dropLast (b.first :: b.rest) (pieces path) <;>
      simp only [methodRouterOutcome, ha, hb]

/-- Method routes of which no two with one method take the path give the same answer in
any order. -/
theorem methodRouterOutcome_perm {α : Type} (route : α → MethodRoute) (path : List UInt8) (method : Method)
    {key : α → List String × Method}
    (hkey : ∀ a b, (route a).takes path = true → (route b).takes path = true →
      (route a).method = (route b).method → key a = key b)
    {routes routes' : List α} (hperm : routes.Perm routes') :
    (routes.map key).Nodup → ∀ reason, methodRouterOutcome path method (routes.map route) reason =
      methodRouterOutcome path method (routes'.map route) reason := by
  induction hperm with
  | nil => intro _ _; rfl
  | cons r _ ih =>
    intro hnodup reason
    have ih := ih (List.nodup_cons.mp hnodup).2
    simp only [List.map_cons, methodRouterOutcome, ih]
  | swap a b routes =>
    intro hnodup reason
    have hne : key b ≠ key a := fun heq => (List.nodup_cons.mp hnodup).1 (heq ▸ List.mem_cons_self _ _)
    exact methodRouterOutcome_swap path method _ reason fun hb ha hm => hne (hkey b a hb ha hm)
  | trans p₁ _ ih₁ ih₂ =>
    intro hnodup reason
    exact (ih₁ hnodup reason).trans (ih₂ ((p₁.map key).nodup_iff.mp hnodup) reason)

namespace StaticRoute

/-- The route with a method filter after `end()`. -/
def withMethod (r : StaticRoute) (method : Method) : MethodRoute :=
  ⟨.literal r.first, r.rest.map .literal, method, r.handler⟩

/-- A route of literals takes only paths whose pieces decode to its literals. -/
theorem values_eq_of_takes {r : StaticRoute} {method : Method} {path : List UInt8}
    (h : (r.withMethod method).takes path = true) : (pieces path).map decode = r.values := by
  unfold MethodRoute.takes at h
  split at h
  · rename_i values hv
    exact routeMatch_eq_some (routeOutcome_eq_success_iff.mp hv).2
  · cases h

end StaticRoute

/-- **Routes of literals with a method may be declared in any order.**  For every two
`or()` trees, of any shape, whose branches are the same routes of literals ended by
`end()` and a method filter, in two orders, no two of them with the same literals and
the same method, every request and every state whose cursor is at the start of the
path, the two trees answer alike: with the handler of the one route that takes the
path and names the method, with a redirect, or with a `404`, or a `405` naming the
same methods. -/
theorem execute_staticMethodRouter_perm (f f' : Filter) {routes routes' : List (StaticRoute × Method)}
    (hperm : routes.Perm routes') (hdistinct : (routes.map fun r => (r.1.values, r.2)).Nodup)
    (hf : f.orBranches = (routes.map fun r => r.1.withMethod r.2).map MethodRoute.filter)
    (hf' : f'.orBranches = (routes'.map fun r => r.1.withMethod r.2).map MethodRoute.filter)
    (request : Request) (st : RequestState) (h0 : st.currentPathIndex = 0) :
    (f.execute request st []).outcome = (f'.execute request st []).outcome := by
  rw [Filter.execute_outcome_orFallback, hf, h0, orFallback_methodRoutes request _ _ st h0,
    Filter.execute_outcome_orFallback, hf', h0, orFallback_methodRoutes request _ _ st h0]
  refine methodRouterOutcome_perm (fun r => r.1.withMethod r.2) request.fullPath request.method
    (fun a b ha hb hm => ?_) hperm hdistinct .notFound
  rw [(StaticRoute.values_eq_of_takes ha).symm.trans (StaticRoute.values_eq_of_takes hb)]
  exact congrArg _ hm

/-- `literal("a")` routed for `GET` and for `POST`, in the two orders. -/
theorem execute_staticMethodRouter_perm_swap :
    let a : StaticRoute := ⟨⟨"a", by decide, by decide⟩, [], fun _ => .ok (.str "got")⟩
    let b : StaticRoute := ⟨⟨"a", by decide, by decide⟩, [], fun _ => .ok (.str "posted")⟩
    let f := Filter.or (a.withMethod .get).filter (b.withMethod .post).filter
    let f' := Filter.or (b.withMethod .post).filter (a.withMethod .get).filter
    let request : Request := ⟨.put, [47, 97], []⟩
    [(a, Method.get), (b, .post)].Perm [(b, .post), (a, .get)] ∧
      ([(a, Method.get), (b, .post)].map fun r => (r.1.values, r.2)).Nodup ∧
      f.orBranches = ([(a, Method.get), (b, .post)].map fun r => r.1.withMethod r.2).map MethodRoute.filter ∧
      f'.orBranches = ([(b, Method.post), (a, .get)].map fun r => r.1.withMethod r.2).map MethodRoute.filter ∧
      (RequestState.new []).currentPathIndex = 0 ∧
      (f.execute request (.new []) []).outcome = (f'.execute request (.new []) []).outcome := by
  intro a b f f' request
  have hperm : [(a, Method.get), (b, .post)].Perm [(b, .post), (a, .get)] := List.Perm.swap _ _ []
  have hdistinct : ([(a, Method.get), (b, .post)].map fun r => (r.1.values, r.2)).Nodup := by decide
  exact ⟨hperm, hdistinct, rfl, rfl, rfl,
    execute_staticMethodRouter_perm f f' hperm hdistinct rfl rfl request (.new []) rfl⟩

end Myth
