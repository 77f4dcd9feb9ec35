import Myth.Route

/-!
# What a route matches, and where it redirects

On the pieces, a route succeeds exactly when its steps take the pieces one to one,
each accepting its piece, and the last piece is not empty (`walk_success`); it
redirects exactly when the steps take all pieces but a last empty one
(`walk_error`, `walk_redirect`).  With `route_walk` these become facts about the
route run on a path.  The trailing-slash redirect of `end()` points at the path
without its last `/`, which the route matches unless it too ends with `/`.

    walk_success  : walk … = success s ↔ last piece non-empty ∧ routeMatch … = some s
    walk_redirect : routeMatch steps ps = some s → walk l steps (ps ++ [[]]) = redirect l
-/

namespace Myth

/-- The steps take the pieces one to one, each accepting its piece; the values are
concatenated in order. -/
def routeMatch : List Step → List (List UInt8) → Option Tuple
  | [], [] => some []
  | [], _ :: _ | _ :: _, [] => none
  | step :: steps, piece :: pieces =>
    (step.accept (decode piece)).bind fun success => (routeMatch steps pieces).map (success ++ ·)

theorem getLast?_cons_ne_nil {piece : List UInt8} {pieces : List (List UInt8)}
    (h : ¬(piece = [] ∧ pieces = [])) :
    (piece :: pieces).getLast? ≠ some [] ↔ pieces.getLast? ≠ some [] := by
  cases pieces with
  | nil => simpa using h
  | cons piece' pieces => rw [List.getLast?_cons_cons]

theorem walk_cons_of_accept {location : List UInt8} {step : Step} {steps : List Step}
    {piece : List UInt8} {pieces : List (List UInt8)} {success : Tuple}
    (h : ¬(piece = [] ∧ pieces = [])) (ha : step.accept (decode piece) = some success) :
    walk location (step :: steps) (piece :: pieces) = (walk location steps pieces).map (success ++ ·) := by
  rw [walk, if_neg (by simpa [List.isEmpty_iff] using h), ha]

theorem walk_cons_of_reject {location : List UInt8} {step : Step} {steps : List Step}
    {piece : List UInt8} {pieces : List (List UInt8)} (ha : step.accept (decode piece) = none) :
    walk location (step :: steps) (piece :: pieces) = .forward [] .notFound := by
  rw [walk]
  split_ifs
  · rfl
  · rw [ha]

/-- On the pieces, the route succeeds exactly when the steps take them one to one
and the last is not empty. -/
theorem walk_success (location : List UInt8) (steps : List Step) (ps : List (List UInt8))
    (success : Tuple) :
    walk location steps ps = .success success ↔
      ps.getLast? ≠ some [] ∧ routeMatch steps ps = some success := by
  induction steps generalizing ps success with
  | nil =>
    cases ps with
    | nil => simp [walk, routeMatch, eq_comm]
    | cons piece pieces =>
      simp only [walk, routeMatch]
      split_ifs <;> simp
  | cons step steps ih =>
    cases ps with
    | nil => simp [walk, routeMatch]
    | cons piece pieces =>
      by_cases hempty : piece = [] ∧ pieces = []
      · obtain ⟨rfl, rfl⟩ := hempty
        simp [walk]
      rw [getLast?_cons_ne_nil hempty, routeMatch]
      rcases ha : step.accept (decode piece) with _ | x
      · simp [walk_cons_of_reject ha]
      · simp only [walk_cons_of_accept hempty ha, Outcome.map_eq_success, ih, Option.some_bind,
          Option.map_eq_some']
        constructor
        · rintro ⟨s, ⟨hlast, hs⟩, rfl⟩
          exact ⟨hlast, s, hs, rfl⟩
        · rintro ⟨hlast, s, hs, rfl⟩
          exact ⟨s, ⟨hlast, hs⟩, rfl⟩

/-- On the pieces, the route errors only by redirecting to `location`, when the steps
take all pieces but a last empty one. -/
theorem walk_error {location : List UInt8} {steps : List Step} {ps : List (List UInt8)}
    {error : BoxedFilterError} (h : walk location steps ps = .error error) :
    error = .redirect location ∧ ∃ init success, ps = init ++ [[]] ∧ routeMatch steps init = some success := by
  induction steps generalizing ps with
  | nil =>
    match ps, h with
    | piece :: pieces, h =>
      simp only [walk] at h
      split_ifs at h with hempty
      cases h
      simp only [Bool.and_eq_true, List.isEmpty_iff] at hempty
      obtain ⟨rfl, rfl⟩ := hempty
      exact ⟨rfl, [], [], rfl, rfl⟩
  | cons step steps ih =>
    match ps, h with
    | piece :: pieces, h =>
      by_cases hempty : piece = [] ∧ pieces = []
      · obtain ⟨rfl, rfl⟩ := hempty
        simp [walk] at h
      rcases hx : step.accept (decode piece) with _ | x
      · rw [walk_cons_of_reject hx] at h
        cases h
      · rw [walk_cons_of_accept hempty hx] at h
        obtain ⟨rfl, init, s, rfl, hinit⟩ := ih (Outcome.map_eq_error.mp h)
        exact ⟨rfl, piece :: init, x ++ s, rfl, by simp [routeMatch, hx, hinit]⟩

/-- On the pieces, steps that take them one to one redirect once an empty piece
follows. -/
theorem walk_redirect (location : List UInt8) (steps : List Step) (ps : List (List UInt8))
    (success : Tuple) (h : routeMatch steps ps = some success) :
    walk location steps (ps ++ [[]]) = .error (.redirect location) := by
  induction steps generalizing ps success with
  | nil =>
    match ps, h with
    | [], _ => rfl
  | cons step steps ih =>
    match ps, h with
    | piece :: pieces, h =>
      simp only [routeMatch, Option.bind_eq_some, Option.map_eq_some'] at h
      obtain ⟨x, hx, s, hs, -⟩ := h
      rw [List.cons_append, walk_cons_of_accept (by simp) hx, ih pieces s hs]
      rfl

theorem piecesAfter_eq_pieces {path : List UInt8} (h : path ≠ []) : piecesAfter path = pieces path := by
  match path, h with
  | _ :: _, _ => rfl

/-- **What a route matches.**  Run from the start of the path, a route of literal,
`param_str` and `param::<T>` steps ended by `end()` succeeds exactly when its steps
take the path's pieces one to one, each accepting its decoded piece (`routeMatch`,
which needs as many pieces as steps), and the last piece is not empty; it succeeds
with the steps' values in order. -/
theorem route_success (request : Request) (first : Step) (rest : List Step) (st : RequestState)
    (h0 : st.currentPathIndex = 0) (success : Tuple) :
    ((route first rest).execute request st []).outcome = .success success ↔
      (pieces request.fullPath).getLast? ≠ some [] ∧
        routeMatch (first :: rest) (pieces request.fullPath) = some success := by
  rw [route_walk request first rest st h0, walk_success]
  by_cases hp : request.fullPath = []
  · rw [hp]
    simp [piecesAfter, pieces, routeMatch, show stripSlash [] = [] from rfl]
  · rw [piecesAfter_eq_pieces hp]

/-- The route `literal("a").and(param::<String>()).and(end())` on `/a/x`. -/
theorem route_success_literal_param :
    let first := Step.literal ⟨"a", by decide, by decide⟩
    let rest := [Step.param fun s => some (.str s)]
    let request : Request := ⟨.get, [47, 97, 47, 120], []⟩
    (RequestState.new []).currentPathIndex = 0 ∧
      ((route first rest).execute request (.new []) []).outcome = .success [.str "x"] := by
  intro first rest request
  exact ⟨rfl, (route_success request first rest (.new []) rfl _).mpr ⟨by decide, rfl⟩⟩

/-- `param_str().and(end())` redirects `//` to `/`, on which it forwards. -/
theorem route_redirect_double_slash :
    let R := route .paramStr []
    (R.execute ⟨.get, [47, 47], []⟩ (.new []) []).outcome = .error (.redirect [47]) ∧
      [47, 47] = [47] ++ [(47 : UInt8)] ∧
      (R.execute ⟨.get, [47], []⟩ (.new []) []).outcome = .forward [] .notFound :=
  ⟨rfl, rfl, rfl⟩

/-- A route that matches a path redirects the path with a `/` appended back to it. -/
theorem route_redirect_of_success (first : Step) (rest : List Step) (method : Method)
    (headers : HeaderMap) {st st' : RequestState} (h0 : st.currentPathIndex = 0)
    (h0' : st'.currentPathIndex = 0) {location : List UInt8} {success : Tuple}
    (h : ((route first rest).execute ⟨method, location, headers⟩ st []).outcome = .success success) :
    ((route first rest).execute ⟨method, location ++ [47], headers⟩ st' []).outcome =
      .error (.redirect location) := by
  rw [route_walk _ first rest st h0, walk_success] at h
  have hne : location ≠ [] := by
    rintro rfl
    simp [Request.fullPath, piecesAfter, routeMatch] at h
  rw [route_walk _ first rest st' h0']
  simp only [Request.fullPath, List.dropLast_concat, piecesAfter_append_slash hne]
  exact walk_redirect location _ _ success h.2

/-- A route redirects only a path `location ++ "/"`, for a location whose pieces its
steps take. -/
theorem route_redirect_inv (first : Step) (rest : List Step) (method : Method)
    (headers : HeaderMap) {st : RequestState} (h0 : st.currentPathIndex = 0)
    {path location : List UInt8}
    (h : ((route first rest).execute ⟨method, path, headers⟩ st []).outcome =
      .error (.redirect location)) :
    path = location ++ [47] ∧ location ≠ [] ∧
      ∃ success, routeMatch (first :: rest) (piecesAfter location) = some success := by
  rw [route_walk _ first rest st h0] at h
  obtain ⟨hloc, init, s, hps, hinit⟩ := walk_error h
  cases hloc
  have hpath : path ≠ [] := by
    rintro rfl
    simp [Request.fullPath, piecesAfter] at hps
  have hlast : path.getLast? = some 47 :=
    (piecesAfter_getLast_eq_nil hpath).mp (by rw [show piecesAfter path = _ from hps]; simp)
  obtain ⟨location, rfl⟩ := List.getLast?_eq_some_iff.mp hlast
  have hne : location ≠ [] := by
    rintro rfl
    simp only [Request.fullPath, List.nil_append] at hps
    rw [show piecesAfter [47] = [[]] from rfl, eq_comm, List.append_left_eq_self] at hps
    subst hps
    simp [routeMatch] at hinit
  rw [show (⟨method, location ++ [47], headers⟩ : Request).fullPath = location ++ [47] from rfl,
    piecesAfter_append_slash hne, List.append_cancel_right_eq] at hps
  subst hps
  simp only [Request.fullPath, List.dropLast_concat]
  exact ⟨trivial, hne, s, hinit⟩

/-- **Where a route redirects.**  Run from the start of the path, a route ended by
`end()` redirects only to the path without its last `/`; it matches that location
exactly when the location does not end with `/` itself; and on every path it
matches, it redirects the path with a `/` appended back to it. -/
theorem route_redirect (first : Step) (rest : List Step) (method : Method) (headers : HeaderMap)
    (st : RequestState) (h0 : st.currentPathIndex = 0) :
    (∀ path location,
      ((route first rest).execute ⟨method, path, headers⟩ st []).outcome = .error (.redirect location) →
        path = location ++ [47] ∧
        ((∃ success, ((route first rest).execute ⟨method, location, headers⟩ st []).outcome =
          .success success) ↔ location.getLast? ≠ some 47)) ∧
    (∀ location success,
      ((route first rest).execute ⟨method, location, headers⟩ st []).outcome = .success success →
        ((route first rest).execute ⟨method, location ++ [47], headers⟩ st []).outcome =
          .error (.redirect location)) := by
  constructor
  · intro path location h
    obtain ⟨rfl, hne, s, hs⟩ := route_redirect_inv first rest method headers h0 h
    refine ⟨rfl, ?_⟩
    simp only [route_walk _ first rest st h0, walk_success, Request.fullPath]
    rw [Ne, piecesAfter_getLast_eq_nil hne]
    exact ⟨fun ⟨_, hl, _⟩ => hl, fun hl => ⟨s, hl, hs⟩⟩
  · exact fun location success h => route_redirect_of_success first rest method headers h0 h0 h

/-- `literal("a").and(end())` redirects `/a/` to `/a`, which it matches. -/
theorem route_redirect_literal :
    let first := Step.literal ⟨"a", by decide, by decide⟩
    (RequestState.new []).currentPathIndex = 0 ∧
      ((route first []).execute ⟨.get, [47, 97, 47], []⟩ (.new []) []).outcome =
        .error (.redirect [47, 97]) ∧
      ([47, 97, 47] = [47, 97] ++ [(47 : UInt8)] ∧
        ∃ success, ((route first []).execute ⟨.get, [47, 97], []⟩ (.new []) []).outcome =
          .success success) := by
  intro first
  have redirect := (route_redirect first [] .get [] (.new []) rfl).1 [47, 97, 47] [47, 97] rfl
  exact ⟨rfl, rfl, redirect.1, redirect.2.mpr (by decide)⟩

end Myth
