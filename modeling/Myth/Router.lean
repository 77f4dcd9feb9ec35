import Myth.Service

/-!
# An `or()` tree of routes is a first-match router (`filter/or.rs`, `path.rs`, `method.rs`,
`forward.rs`)

An application routes by an `or()` of route handlers
`s1.and(…).and(sn).and(path::end()).handle(handler)`.  Run from the start of the path,
each route does with the path's pieces what `routeOutcome` reads off `routeMatch`
(`walk_eq_routeOutcome`, from `route_walk`), and the `or()` tree, of any shape, tries
them in order from the same cursor (`execute_outcome_orFallback`).

    routeOutcome  : a last empty piece redirects when the steps take the others;
                    otherwise a match succeeds; else the route forwards with `NotFound`
    execute_router : the tree does what `routerOutcome` reads off its routes
    execute_methodRouter : with a method filter after each route, a route that takes
                    the path but not the method adds its method to `MethodNotAllowed`
    Endpoint.handleRequest_methodRouter : so `handle_requests` answers a request no
                    route answers with 404, or 405 naming the routes' methods in `Allow`
-/

namespace Myth

/-- `walk` succeeds, redirects, or forwards its empty input with `NotFound`. -/
theorem walk_forward {location : List UInt8} {steps : List Step} {ps : List (List UInt8)}
    {input : Tuple} {reason : Forwarding} (h : walk location steps ps = .forward input reason) :
    input = [] ∧ reason = .notFound := by
  induction steps generalizing ps with
  | nil =>
    match ps, h with
    | [], h => cases h
    | piece :: pieces, h =>
      simp only [walk] at h
      split_ifs at h
      cases h
      exact ⟨rfl, rfl⟩
  | cons step steps ih =>
    match ps, h with
    | [], h => cases h; exact ⟨rfl, rfl⟩
    | piece :: pieces, h =>
      simp only [walk] at h
      split_ifs at h
      · cases h; exact ⟨rfl, rfl⟩
      · split at h
        · rcases hw : walk location steps pieces with _ | _ | ⟨c, r⟩ <;> rw [hw] at h <;> cases h
          exact ih hw
        · cases h; exact ⟨rfl, rfl⟩

/-! ## One route -/

/-- What a route does with the pieces, read off `routeMatch`: with a last empty piece it
redirects when its steps take the others, and otherwise it succeeds when its steps take
them all; else it forwards with `NotFound`. -/
def routeOutcome (location : List UInt8) (steps : List Step) (ps : List (List UInt8)) : Outcome Tuple Tuple :=
  if ps.getLast? = some [] then
    if (routeMatch steps ps.dropLast).isSome then .error (.redirect location) else .forward [] .notFound
  else
    match routeMatch steps ps with
    | some values => .success values
    | none => .forward [] .notFound

theorem walk_eq_routeOutcome (location : List UInt8) (steps : List Step) (ps : List (List UInt8)) :
    walk location steps ps = routeOutcome location steps ps := by
  unfold routeOutcome
  by_cases hlast : ps.getLast? = some []
  · have hps : ps = ps.dropLast ++ [[]] := (List.dropLast_append_getLast? _ hlast).symm
    rw [if_pos hlast]
    split
    · rename_i hm
      obtain ⟨values, hv⟩ := Option.isSome_iff_exists.mp hm
      rw [hps, walk_redirect location steps _ values hv]
    · rename_i hm
      rcases hw : walk location steps ps with values | error | ⟨input, reason⟩
      · exact absurd hlast ((walk_success location steps ps values).mp hw).1
      · obtain ⟨-, init, values, rfl, hinit⟩ := walk_error hw
        rw [List.dropLast_concat, hinit] at hm
        exact absurd rfl hm
      · obtain ⟨rfl, rfl⟩ := walk_forward hw
        rfl
  · rw [if_neg hlast]
    split
    · rename_i values hm
      exact (walk_success location steps ps values).mpr ⟨hlast, hm⟩
    · rename_i hm
      rcases hw : walk location steps ps with values | error | ⟨input, reason⟩
      · rw [((walk_success location steps ps values).mp hw).2] at hm
        cases hm
      · obtain ⟨-, init, values, rfl, -⟩ := walk_error hw
        simp at hlast
      · obtain ⟨rfl, rfl⟩ := walk_forward hw
        rfl

theorem routeOutcome_forward {location : List UInt8} {steps : List Step} {ps : List (List UInt8)}
    {input : Tuple} {reason : Forwarding} (h : routeOutcome location steps ps = .forward input reason) :
    input = [] ∧ reason = .notFound := by
  unfold routeOutcome at h
  split_ifs at h <;> (try split at h) <;> cases h <;> exact ⟨rfl, rfl⟩

theorem routeOutcome_piecesAfter (location : List UInt8) (first : Step) (rest : List Step)
    (path : List UInt8) :
    routeOutcome location (first :: rest) (piecesAfter path) = routeOutcome location (first :: rest) (pieces path) := by
  match path with
  | [] => rfl
  | _ :: _ => rfl

/-- A route of steps ended by `end()`, and the handler of the values its steps take:
`s1.and(…).and(sn).and(path::end()).handle(handler)`. -/
structure RouteHandler where
  first : Step
  rest : List Step
  handler : Tuple → Except BoxedFilterError Val

namespace RouteHandler

/-- The route handler's filter. -/
def filter (r : RouteHandler) : Filter := .handle (route r.first r.rest) r.handler

/-- Run from the start of the path, a route handler does what its route does with the
path's pieces, its handler answering the values of a match. -/
theorem execute_outcome (r : RouteHandler) (request : Request) (st : RequestState)
    (h0 : st.currentPathIndex = 0) :
    (r.filter.execute request st []).outcome =
      match routeOutcome request.fullPath.dropLast (r.first :: r.rest) (pieces request.fullPath) with
      | .success values => .ofResult ((r.handler values).map fun ok => [ok])
      | o => o := by
  have hroute := route_walk request r.first r.rest st h0
  rw [walk_eq_routeOutcome, routeOutcome_piecesAfter] at hroute
  exact (Filter.execute_handle_outcome _ r.handler request st []).trans (hroute ▸ rfl)

end RouteHandler

/-! ## The router -/

/-- What an `or()` tree of route handlers does with a request for `path`, read off its
routes in order: the first route that does not pass the path on decides, with its
handler on the values its steps took or with its redirect; a path every route passes
on is forwarded with `NotFound`. -/
def routerOutcome (path : List UInt8) : List RouteHandler → Outcome Tuple Tuple
  | [] => .forward [] .notFound
  | r :: routes =>
    match routeOutcome path.dropLast (r.first :: r.rest) (pieces path) with
    | .success values => .ofResult ((r.handler values).map fun ok => [ok])
    | .error error => .error error
    | .forward _ _ => routerOutcome path routes

theorem orFallback_routes (request : Request) (routes : List RouteHandler) (st : RequestState)
    (h0 : st.currentPathIndex = 0) :
    (Filter.orFallback request 0 (routes.map RouteHandler.filter) .notFound st []).outcome =
      routerOutcome request.fullPath routes := by
  induction routes generalizing st with
  | nil => rfl
  | cons r routes ih =>
    rw [List.map_cons, Filter.orFallback_cons_outcome, r.execute_outcome request st h0]
    simp only [routerOutcome]
    cases ho : routeOutcome request.fullPath.dropLast (r.first :: r.rest) (pieces request.fullPath) with
    | success values =>
      dsimp only
      cases r.handler values <;> rfl
    | error error => rfl
    | forward input reason =>
      obtain ⟨rfl, rfl⟩ := routeOutcome_forward ho
      exact ih _ rfl

/-- **An `or()` tree of routes is a first-match router.**  For every `or()` tree, of any
shape, whose branches are route handlers, every request and every state whose cursor
is at the start of the path, the tree does what `routerOutcome` reads off the routes:
the first route, in order, that takes the path's pieces answers with its handler; one
whose steps take all but a last empty piece redirects to the path without its last
`/`, ahead of every later route; and a path no route takes is forwarded with
`NotFound`. -/
theorem execute_router (f : Filter) (routes : List RouteHandler)
    (hroutes : f.orBranches = routes.map RouteHandler.filter) (request : Request) (st : RequestState)
    (h0 : st.currentPathIndex = 0) :
    (f.execute request st []).outcome = routerOutcome request.fullPath routes := by
  rw [Filter.execute_outcome_orFallback, hroutes, h0]
  exact orFallback_routes request routes st h0

/-- `literal("a").handle(…).or(param_str().handle(…))`, each route ended by `end()`, on
`/b`. -/
theorem execute_router_literal_param :
    let routes : List RouteHandler :=
      [⟨.literal ⟨"a", by decide, by decide⟩, [], fun _ => .ok (.str "a")⟩,
        ⟨.paramStr, [], fun values => .ok (.tuple values)⟩]
    let f := Filter.or (routes.get ⟨0, by decide⟩).filter (routes.get ⟨1, by decide⟩).filter
    (f.orBranches = routes.map RouteHandler.filter ∧ (RequestState.new []).currentPathIndex = 0) ∧
      (f.execute ⟨.get, [47, 98], []⟩ (.new []) []).outcome = routerOutcome [47, 98] routes := by
  intro routes f
  exact ⟨⟨rfl, rfl⟩, execute_router f routes rfl ⟨.get, [47, 98], []⟩ (.new []) rfl⟩

/-! ## Routes with a method -/

/-- A route ended by `end()` and a method filter, and the handler of the values its
steps take: `s1.and(…).and(sn).and(path::end()).and(method::m()).handle(handler)`. -/
structure MethodRoute where
  first : Step
  rest : List Step
  method : Method
  handler : Tuple → Except BoxedFilterError Val

namespace MethodRoute

/-- The method route's filter. -/
def filter (r : MethodRoute) : Filter :=
  .handle (.and (route r.first r.rest) (.leaf (.methodIs r.method))) r.handler

/-- Run from the start of the path, a method route does what its route does with the
path's pieces; on a match, its handler answers the request of its method, and any
other request is forwarded with `MethodNotAllowed` of its method. -/
theorem execute_outcome (r : MethodRoute) (request : Request) (st : RequestState)
    (h0 : st.currentPathIndex = 0) :
    (r.filter.execute request st []).outcome =
      match routeOutcome request.fullPath.dropLast (r.first :: r.rest) (pieces request.fullPath) with
      | .success values =>
        if request.method = r.method then .ofResult ((r.handler values).map fun ok => [ok])
        else .forward [] (.methodNotAllowed (.ofMethod r.method))
      | o => o := by
  have hroute := route_walk request r.first r.rest st h0
  rw [walk_eq_routeOutcome, routeOutcome_piecesAfter] at hroute
  rw [filter, Filter.execute_handle_outcome]
  rcases hR : (route r.first r.rest).execute request st [] with ⟨st₁, outcome⟩
  rw [hR] at hroute
  subst hroute
  cases ho : routeOutcome request.fullPath.dropLast (r.first :: r.rest) (pieces request.fullPath) with
  | success values =>
    rw [Filter.execute_and_of_success (hR.trans (by rw [ho]))]
    by_cases hm : request.method = r.method <;>
      simp [Filter.execute, Leaf.execute, readyOutcome, Leaf.methodFilter, hm, RequestOutcome.map,
        Outcome.map, Outcome.mapInput, Tuple.append_eq]
  | error error => rw [Filter.execute_and_of_error (hR.trans (by rw [ho]))]
  | forward input reason =>
    obtain ⟨rfl, rfl⟩ := routeOutcome_forward ho
    rw [execute_and_forward (show ((route r.first r.rest).execute request st []).outcome = .forward [] .notFound
      by rw [hR]; exact ho)]

end MethodRoute

/-- What an `or()` tree of method routes does with a request for `path` by `method`,
read off its routes in order: the first route that takes the path's pieces and names
the method answers with its handler, and one that redirects redirects; a route that
takes the pieces but names another method adds its method to the reason; when no route
answers, the request is forwarded with the reasons combined, `NotFound` when no route
took the path. -/
def methodRouterOutcome (path : List UInt8) (method : Method) :
    List MethodRoute → Forwarding → Outcome Tuple Tuple
  | [], reason => .forward [] reason
  | r :: routes, reason =>
    match routeOutcome path.dropLast (r.first :: r.rest) (pieces path) with
    | .success values =>
      if method = r.method then .ofResult ((r.handler values).map fun ok => [ok])
      else methodRouterOutcome path method routes (reason.combine (.methodNotAllowed (.ofMethod r.method)))
    | .error error => .error error
    | .forward _ _ => methodRouterOutcome path method routes reason

theorem orFallback_methodRoutes (request : Request) (routes : List MethodRoute) (reason : Forwarding)
    (st : RequestState) (h0 : st.currentPathIndex = 0) :
    (Filter.orFallback request 0 (routes.map MethodRoute.filter) reason st []).outcome =
      methodRouterOutcome request.fullPath request.method routes reason := by
  induction routes generalizing reason st with
  | nil => rfl
  | cons r routes ih =>
    rw [List.map_cons, Filter.orFallback_cons_outcome, r.execute_outcome request st h0]
    simp only [methodRouterOutcome]
    cases ho : routeOutcome request.fullPath.dropLast (r.first :: r.rest) (pieces request.fullPath) with
    | success values =>
      dsimp only
      split_ifs
      · cases r.handler values <;> rfl
      · exact ih _ _ rfl
    | error error => rfl
    | forward input reason' =>
      obtain ⟨rfl, rfl⟩ := routeOutcome_forward ho
      simpa only [Forwarding.combine_notFound] using ih reason _ rfl

/-- **An `or()` tree of method routes is a router with `405`.**  For every `or()` tree,
of any shape, whose branches are method routes, every request and every state whose
cursor is at the start of the path, the tree does what `methodRouterOutcome` reads off
the routes: the first route that takes the path's pieces and names the request's method
answers with its handler, a redirect stops the search, and otherwise the request is
forwarded with `MethodNotAllowed` of the methods of every route that took the path, or
`NotFound` when none did. -/
theorem execute_methodRouter (f : Filter) (routes : List MethodRoute)
    (hroutes : f.orBranches = routes.map MethodRoute.filter) (request : Request) (st : RequestState)
    (h0 : st.currentPathIndex = 0) :
    (f.execute request st []).outcome = methodRouterOutcome request.fullPath request.method routes .notFound := by
  rw [Filter.execute_outcome_orFallback, hroutes, h0]
  exact orFallback_methodRoutes request routes .notFound st h0

/-- `literal("a")` routed for `GET` and for `POST`, each route ended by `end()`, on a `PUT`
of `/a`. -/
theorem execute_methodRouter_put :
    let lit : Literal := ⟨"a", by decide, by decide⟩
    let routes : List MethodRoute :=
      [⟨.literal lit, [], .get, fun _ => .ok (.str "got")⟩, ⟨.literal lit, [], .post, fun _ => .ok (.str "posted")⟩]
    let f := Filter.or (routes.get ⟨0, by decide⟩).filter (routes.get ⟨1, by decide⟩).filter
    (f.orBranches = routes.map MethodRoute.filter ∧ (RequestState.new []).currentPathIndex = 0) ∧
      (f.execute ⟨.put, [47, 97], []⟩ (.new []) []).outcome =
        methodRouterOutcome [47, 97] .put routes .notFound := by
  intro lit routes f
  exact ⟨⟨rfl, rfl⟩, execute_methodRouter f routes rfl ⟨.put, [47, 97], []⟩ (.new []) rfl⟩

/-! ## What the service answers when no route does -/

namespace MethodRoute

/-- Whether the route's steps take the pieces of `path`: one to one, the last not empty. -/
def takes (r : MethodRoute) (path : List UInt8) : Bool :=
  match routeOutcome path.dropLast (r.first :: r.rest) (pieces path) with
  | .success _ => true
  | _ => false

/-- Whether the route redirects `path`: its steps take all its pieces but a last empty one. -/
def redirects (r : MethodRoute) (path : List UInt8) : Bool :=
  match routeOutcome path.dropLast (r.first :: r.rest) (pieces path) with
  | .error _ => true
  | _ => false

end MethodRoute

/-- When no route redirects and none that takes the path names the method, the router
forwards with the methods of the routes that take the path added to the reason. -/
theorem methodRouterOutcome_unanswered (path : List UInt8) (method : Method) (routes : List MethodRoute)
    (hredirect : ∀ r ∈ routes, r.redirects path = false)
    (hmethod : ∀ r ∈ routes, r.takes path = true → method ≠ r.method) (reason : Forwarding) :
    methodRouterOutcome path method routes reason =
      .forward [] (((routes.filter (·.takes path)).map fun r =>
        Forwarding.methodNotAllowed (.ofMethod r.method)).foldl Forwarding.combine reason) := by
  induction routes generalizing reason with
  | nil => rfl
  | cons r routes ih =>
    have ih := ih (fun r' h => hredirect r' (List.mem_cons_of_mem _ h))
      (fun r' h => hmethod r' (List.mem_cons_of_mem _ h))
    simp only [methodRouterOutcome]
    cases ho : routeOutcome path.dropLast (r.first :: r.rest) (pieces path) with
    | success values =>
      have htakes : r.takes path = true := by rw [MethodRoute.takes, ho]
      simp only [List.filter_cons, htakes, if_true, List.map_cons, List.foldl_cons]
      rw [if_neg (hmethod r (List.mem_cons_self _ _) htakes)]
      exact ih _
    | error error =>
      have hr := hredirect r (List.mem_cons_self _ _)
      rw [MethodRoute.redirects, ho] at hr
      cases hr
    | forward input reason' =>
      have htakes : r.takes path = false := by rw [MethodRoute.takes, ho]
      simp only [List.filter_cons, htakes, Bool.false_eq_true, if_false]
      exact ih _

namespace Endpoint

/-- **A router of method routes answers 404 or 405 as the routes say.**  For every endpoint
whose filter is an `or()` tree of method routes and every request that no route
redirects and no route that takes its path names the method of: `handle_requests`
answers 404 when no route takes the path, and otherwise 405 with an `Allow` header that
names, once each and in the order of `standardMethods`, the methods of the routes that
take it. -/
theorem handleRequest_methodRouter (e : Endpoint) (routes : List MethodRoute)
    (hroutes : e.filter.orBranches = routes.map MethodRoute.filter) (respond : Val → Response)
    (otherResponse : String → String → Response) (request : Request) (events : List BodyEvent)
    (hredirect : ∀ r ∈ routes, r.redirects request.fullPath = false)
    (hmethod : ∀ r ∈ routes, r.takes request.fullPath = true → request.method ≠ r.method) :
    e.handleRequest respond otherResponse request events =
      .ok (if routes.any (·.takes request.fullPath) then
          (defaultResponse StatusCode.METHOD_NOT_ALLOWED).withHeader ALLOW
            (.ofString (String.intercalate ", " ((AttemptedMethods.standardMethods.filter
              (· ∈ (routes.filter (·.takes request.fullPath)).map MethodRoute.method)).map Method.asStr)))
        else defaultResponse StatusCode.NOT_FOUND) := by
  have hout : (e.filter.execute request (.new events) []).outcome =
      methodRouterOutcome request.fullPath request.method routes .notFound := by
    rw [Filter.execute_outcome_orFallback, hroutes]
    exact orFallback_methodRoutes request routes .notFound _ rfl
  rw [methodRouterOutcome_unanswered _ _ routes hredirect hmethod] at hout
  rw [e.handleRequest_of_forward respond otherResponse request events hout]
  cases htaken : routes.filter (·.takes request.fullPath) with
  | nil =>
    have hnone : routes.any (·.takes request.fullPath) = false := by
      simpa [List.filter_eq_nil_iff] using htaken
    rw [hnone]
    rfl
  | cons taken rest =>
    have hsome : routes.any (·.takes request.fullPath) = true :=
      List.any_eq_true.mpr ⟨taken, List.mem_filter.mp (htaken ▸ List.mem_cons_self taken rest)⟩
    rw [if_pos hsome, List.map_cons, List.foldl_cons, Forwarding.notFound_combine,
      foldl_combine_methodNotAllowed MethodRoute.method, Forwarding.intoResponse,
      AttemptedMethods.intoHeaderValue_eq]
    congr 5
    refine List.filter_congr fun m hm => ?_
    rw [Bool.eq_iff_iff, AttemptedMethods.has_foldl, AttemptedMethods.has_ofMethod]
    simp only [decide_eq_true_eq, List.map_cons, List.mem_cons, hm, and_true]
    exact or_congr_left eq_comm

/-- `literal("a")` routed for `GET` and for `POST` answers a `PUT` of `/a` with 405 and
`Allow: GET, POST`. -/
theorem handleRequest_methodRouter_put :
    let lit : Literal := ⟨"a", by decide, by decide⟩
    let routes : List MethodRoute :=
      [⟨.literal lit, [], .get, fun _ => .ok (.str "got")⟩, ⟨.literal lit, [], .post, fun _ => .ok (.str "posted")⟩]
    let e : Endpoint := ⟨.or (routes.get ⟨0, by decide⟩).filter (routes.get ⟨1, by decide⟩).filter,
      ⟨rfl, rfl, ⟨rfl, ⟨rfl, trivial, trivial⟩, trivial⟩, ⟨rfl, ⟨rfl, trivial, trivial⟩, trivial⟩⟩, rfl, rfl⟩
    (e.filter.orBranches = routes.map MethodRoute.filter ∧
      (∀ r ∈ routes, r.redirects [47, 97] = false) ∧
      ∀ r ∈ routes, r.takes [47, 97] = true → Method.put ≠ r.method) ∧
    e.handleRequest (fun _ => defaultResponse StatusCode.OK)
        (fun _ _ => defaultResponse StatusCode.INTERNAL_SERVER_ERROR) ⟨.put, [47, 97], []⟩ [] =
      .ok ((defaultResponse StatusCode.METHOD_NOT_ALLOWED).withHeader ALLOW (.ofString "GET, POST")) := by
  intro lit routes e
  have hredirect : ∀ r ∈ routes, r.redirects [47, 97] = false := by decide
  have hmethod : ∀ r ∈ routes, r.takes [47, 97] = true → Method.put ≠ r.method := by decide
  exact ⟨⟨rfl, hredirect, hmethod⟩, (handleRequest_methodRouter e routes rfl _ _ ⟨.put, [47, 97], []⟩ []
    hredirect hmethod).trans rfl⟩

end Endpoint

end Myth
