import Myth.And
import Myth.Library

/-!
# Routes: `s1.and(s2)…and(sn).and(path::end())` (`path.rs`)

A route is a chain of segment steps (`literal`, `param_str`, `param::<T>`) ended by
`end()`.  Read from the start of the path, the steps see the pieces of the path with
one leading `/` dropped, split at every `/` (`pieces`): each step reads the next
piece, and the route fails as soon as a step rejects its piece or finds the path
used up.  `walk` says that on the pieces; `route_walk` proves the route's run is
`walk` of its path's pieces.  After the steps, `end()` succeeds when no piece is
left and redirects to the path without its last `/` when exactly one empty piece is.

    segment_pieces : a segment step reads the first piece and leaves the rest
    route_walk     : (route first rest).execute … = walk … (piecesAfter path)
-/

namespace Myth

/-! ## Pieces -/

/-- The pieces of `path`: with one leading `/` dropped, split at every `/`. -/
def pieces (path : List UInt8) : List (List UInt8) := (stripSlash path).splitOn 47

/-- The pieces of what follows the cursor, as the segment leaves read them one by
one; none once nothing is left. -/
def piecesAfter : List UInt8 → List (List UInt8)
  | [] => []
  | b :: rest => pieces (b :: rest)

theorem splitOn_append_slash (path : List UInt8) :
    (path ++ [47]).splitOn 47 = path.splitOn 47 ++ [[]] := by
  induction path with
  | nil => rfl
  | cons b path ih =>
    simp only [List.splitOn, List.cons_append, List.splitOnP_cons] at ih ⊢
    split
    · rw [ih]; rfl
    · rw [ih]
      obtain ⟨piece, pieces, h⟩ :=
        List.exists_cons_of_ne_nil (List.splitOnP_ne_nil (· == (47 : UInt8)) path)
      rw [h]
      rfl

theorem splitOn_append_ne_slash (path : List UInt8) {b : UInt8} (hb : b ≠ 47) :
    ∃ init last, (path ++ [b]).splitOn 47 = init ++ [last ++ [b]] := by
  induction path with
  | nil => exact ⟨[], [], by simp [List.splitOn, hb]⟩
  | cons a path ih =>
    obtain ⟨init, last, h⟩ := ih
    simp only [List.splitOn, List.cons_append, List.splitOnP_cons] at h ⊢
    split
    · exact ⟨[] :: init, last, by rw [h]; rfl⟩
    · rw [h]
      cases init with
      | nil => exact ⟨[], a :: last, rfl⟩
      | cons piece init => exact ⟨(a :: piece) :: init, last, rfl⟩

/-- The last piece is empty exactly when the path is empty or ends with `/`. -/
theorem splitOn_getLast_eq_nil (path : List UInt8) :
    (path.splitOn 47).getLast? = some [] ↔ path = [] ∨ path.getLast? = some 47 := by
  rcases List.eq_nil_or_concat path with rfl | ⟨init, b, rfl⟩
  · simp
  · rw [List.concat_eq_append]
    by_cases hb : b = 47
    · subst hb
      simp [splitOn_append_slash]
    · obtain ⟨init', last, h⟩ := splitOn_append_ne_slash init hb
      simp [h, hb]

theorem stripSlash_append_slash {path : List UInt8} (h : path ≠ []) :
    stripSlash (path ++ [47]) = stripSlash path ++ [47] := by
  match path, h with
  | b :: rest, _ =>
    by_cases hb : b = 47
    · subst hb; rfl
    · simp [stripSlash, hb]

theorem piecesAfter_append_slash {path : List UInt8} (h : path ≠ []) :
    piecesAfter (path ++ [47]) = piecesAfter path ++ [[]] := by
  match path, h with
  | b :: rest, h =>
    simp only [List.cons_append, piecesAfter, pieces]
    rw [← List.cons_append, stripSlash_append_slash h, splitOn_append_slash]

theorem piecesAfter_eq_nil {path : List UInt8} : piecesAfter path = [] ↔ path = [] := by
  cases path with
  | nil => simp [piecesAfter]
  | cons b rest => simp [piecesAfter, pieces, List.splitOn, List.splitOnP_ne_nil]

theorem stripSlash_eq_nil {path : List UInt8} (h : stripSlash path = []) : path = [] ∨ path = [47] := by
  match path, h with
  | [], _ => exact .inl rfl
  | b :: rest, h =>
    by_cases hb : b = 47
    · subst hb
      simp only [stripSlash] at h
      exact .inr (by rw [h])
    · simp [stripSlash, hb] at h

theorem piecesAfter_eq_singleton_nil {path : List UInt8} :
    piecesAfter path = [[]] ↔ path = [47] := by
  constructor
  · intro h
    cases path with
    | nil => cases h
    | cons b rest =>
      have strip := List.intercalate_splitOn (stripSlash (b :: rest)) (47 : UInt8)
      simp only [piecesAfter, pieces] at h
      rw [h] at strip
      simpa using stripSlash_eq_nil strip.symm
  · rintro rfl; rfl

/-- The last piece after the cursor is empty exactly when what is left ends with `/`. -/
theorem piecesAfter_getLast_eq_nil {path : List UInt8} (h : path ≠ []) :
    (piecesAfter path).getLast? = some [] ↔ path.getLast? = some 47 := by
  match path, h with
  | b :: rest, _ =>
    simp only [piecesAfter, pieces, splitOn_getLast_eq_nil]
    by_cases hb : b = 47
    · subst hb
      cases rest <;> simp [stripSlash]
    · simp [stripSlash, hb]

/-- What a segment leaf reads is the first piece after the cursor, and the pieces
after its new cursor are the rest. -/
theorem segment_pieces {request : Request} {st : RequestState} {seg : List UInt8} {len : Nat}
    (h : segment request st = some (seg, len)) :
    piecesAfter (st.currentPath request) = seg :: piecesAfter ((st.currentPath request).drop len) := by
  obtain ⟨hnil, -, -, hstrip, hseg, hrest⟩ := segment_spec h
  have noSlash : ∀ x ∈ seg, ¬(x == 47) = true := fun x hx hx47 =>
    hseg (by rwa [beq_iff_eq.mp hx47] at hx)
  obtain ⟨b, rest, hcp⟩ := List.exists_cons_of_ne_nil hnil
  rw [hcp] at hstrip ⊢
  simp only [piecesAfter, pieces]
  rcases hrest with hrest | ⟨rest', hrest⟩ <;> rw [hcp] at hrest <;> rw [hstrip, hrest]
  · simpa [piecesAfter] using List.splitOnP_eq_single _ seg noSlash
  · exact List.splitOnP_first _ seg noSlash 47 rfl rest'

theorem segment_eq_none {request : Request} {st : RequestState} :
    segment request st = none ↔ st.currentPath request = [] ∨ st.currentPath request = [47] := by
  unfold segment
  split <;> simp_all

theorem take_eq_dropLast {path : List UInt8} {index : Nat} (h : path.drop index = [47]) :
    path.take index = path.dropLast := by
  conv_rhs => rw [← List.take_append_drop index path, h, List.dropLast_concat]

/-! ## Routes -/

/-- One step of a route. -/
inductive Step where
  /-- `path::literal(value)`. -/
  | literal (lit : Literal)
  /-- `path::param_str()`. -/
  | paramStr
  /-- `path::param::<T>()`, for `T::from_str` as `fromStr`. -/
  | param (fromStr : String → Option Val)

namespace Step

/-- The step's filter. -/
def filter : Step → Filter
  | literal lit => .leaf (.literal lit)
  | paramStr => .leaf .paramStr
  | param fromStr => .param fromStr

/-- What the step succeeds with on a decoded piece, if it accepts it. -/
def accept : Step → String → Option Tuple
  | literal lit, segment => if lit.value = segment then some [] else none
  | paramStr, segment => some [.str segment]
  | param fromStr, segment => (fromStr segment).map fun value => [value]

/-- A step accepting its piece moves the cursor past it and succeeds. -/
theorem execute_of_accept (step : Step) (request : Request) {st : RequestState}
    {seg : List UInt8} {len : Nat} {success : Tuple} (h : segment request st = some (seg, len))
    (ha : step.accept (decode seg) = some success) :
    step.filter.execute request st [] = ⟨st.incrCurrentPathIndex len, .success success⟩ := by
  cases step with
  | literal lit =>
    simp only [accept] at ha
    split_ifs at ha with hv
    cases ha
    simp [filter, Filter.execute, Leaf.execute, readyOutcome, Myth.literal, decodedSegment, h, hv,
      Outcome.mapInput]
  | paramStr =>
    cases ha
    simp [filter, Filter.execute, Leaf.execute, readyOutcome, Myth.paramStr, decodedSegment, h,
      Outcome.mapInput]
  | param fromStr =>
    simp only [accept, Option.map_eq_some'] at ha
    obtain ⟨value, hv, rfl⟩ := ha
    simp [filter, Filter.param, Filter.execute, Leaf.execute, readyOutcome, Myth.paramStr,
      decodedSegment, h, hv, Outcome.mapInput, Outcome.ofResult, Except.map]

/-- A step that finds no piece, or rejects it, forwards. -/
theorem execute_of_reject (step : Step) (request : Request) {st : RequestState}
    (h : ∀ seg len, segment request st = some (seg, len) → step.accept (decode seg) = none) :
    (step.filter.execute request st []).outcome = .forward [] .notFound := by
  rcases hseg : segment request st with _ | ⟨seg, len⟩
  · cases step <;>
      simp [filter, Filter.param, Filter.execute, Leaf.execute, readyOutcome, Myth.literal,
        Myth.paramStr, decodedSegment, hseg, Outcome.mapInput]
  · have ha := h seg len hseg
    cases step with
    | literal lit =>
      simp only [accept, ite_eq_right_iff, reduceCtorEq, imp_false] at ha
      simp [filter, Filter.execute, Leaf.execute, readyOutcome, Myth.literal, decodedSegment, hseg,
        ha, Outcome.mapInput]
    | paramStr => cases ha
    | param fromStr =>
      simp only [accept, Option.map_eq_none'] at ha
      simp [filter, Filter.param, Filter.execute, Leaf.execute, readyOutcome, Myth.paramStr,
        decodedSegment, hseg, ha, Outcome.mapInput, Outcome.ofResult, Except.map,
        Recoverable.recover, BoxedFilterError.typeId]

end Step

/-- `first.and(s2)…and(sn).and(path::end())`, nested as the method calls nest. -/
def route (first : Step) (rest : List Step) : Filter :=
  .and (rest.foldl (fun f step => .and f step.filter) first.filter) (.leaf .pathEnd)

/-- The steps nested to the right, ending in `path::end()`. -/
def routeRight : List Step → Filter
  | [] => .leaf .pathEnd
  | step :: steps => .and step.filter (routeRight steps)

theorem execute_foldl_and (request : Request) (f : Filter) (steps : List Step) (g : Filter)
    (st : RequestState) (input : Tuple) :
    (Filter.and (steps.foldl (fun f step => .and f step.filter) f) g).execute request st input =
      (Filter.and f (steps.foldr (fun step g => .and step.filter g) g)).execute request st input := by
  induction steps generalizing f with
  | nil => rfl
  | cons step steps ih =>
    rw [List.foldl_cons, ih, Filter.execute_and_assoc]
    rfl

theorem foldr_and_routeRight (steps : List Step) :
    steps.foldr (fun step g => .and step.filter g) (.leaf .pathEnd) = routeRight steps := by
  induction steps with
  | nil => rfl
  | cons step steps ih => rw [List.foldr_cons, ih]; rfl

/-- The route runs as its steps nested to the right. -/
theorem execute_route (request : Request) (first : Step) (rest : List Step) (st : RequestState)
    (input : Tuple) :
    (route first rest).execute request st input = (routeRight (first :: rest)).execute request st input := by
  rw [route, execute_foldl_and, foldr_and_routeRight]
  rfl

/-! ## The route on the pieces -/

/-- The route read on the pieces: each step reads the next piece in order, and the
route forwards when a step rejects its piece or finds the path used up (no piece, or
one empty piece: nothing but a `/` left); after the steps, `end()` succeeds when no
piece is left and redirects to `location` when one empty piece is. -/
def walk (location : List UInt8) : List Step → List (List UInt8) → Outcome Tuple Tuple
  | [], [] => .success []
  | [], piece :: pieces =>
    if piece.isEmpty && pieces.isEmpty then .error (.redirect location) else .forward [] .notFound
  | _ :: _, [] => .forward [] .notFound
  | step :: steps, piece :: pieces =>
    if piece.isEmpty && pieces.isEmpty then .forward [] .notFound
    else
      match step.accept (decode piece) with
      | some success => (walk location steps pieces).map (success ++ ·)
      | none => .forward [] .notFound

/-- `end()` on the pieces after the cursor, when the path is not `""` or `"/"`. -/
theorem pathEnd_walk (request : Request) (st : RequestState)
    (hpath : request.fullPath ≠ [] ∧ request.fullPath ≠ [47]) :
    ((routeRight []).execute request st []).outcome =
      walk request.fullPath.dropLast [] (piecesAfter (st.currentPath request)) := by
  show (readyOutcome (Myth.pathEnd request st)).outcome = _
  unfold Myth.pathEnd
  rw [if_neg (by tauto)]
  split
  · rename_i hcp
    simp [hcp, piecesAfter, walk, readyOutcome, Outcome.mapInput]
  · rename_i hcp
    rw [hcp, show piecesAfter [47] = [[]] from rfl]
    simp [walk, readyOutcome, Outcome.mapInput, RequestState.previousPath,
      take_eq_dropLast (show request.fullPath.drop st.currentPathIndex = [47] from hcp)]
  · rename_i cp hnil hslash
    rcases hp : piecesAfter (st.currentPath request) with _ | ⟨piece, pieces⟩
    · exact absurd (piecesAfter_eq_nil.mp hp) hnil
    · have : ¬(piece = [] ∧ pieces = []) := by
        rintro ⟨rfl, rfl⟩
        exact hslash (piecesAfter_eq_singleton_nil.mp hp)
      simp [walk, readyOutcome, Outcome.mapInput, List.isEmpty_iff, this]

/-- An `and()` whose first filter forwards forwards its own input. -/
theorem execute_and_forward {request : Request} {f g : Filter} {st : RequestState}
    {input input' : Tuple} {reason : Forwarding}
    (h : (f.execute request st []).outcome = .forward input' reason) :
    ((Filter.and f g).execute request st input).outcome = .forward input reason := by
  simp only [Filter.execute]
  generalize f.execute request st [] = r at h ⊢
  rcases r with ⟨st', outcome⟩
  cases h
  rfl

/-- Where no piece is left, the route forwards, as `walk` does. -/
theorem routeRight_walk_of_segment_none (request : Request) (location : List UInt8) (step : Step)
    (steps : List Step) {st : RequestState} (hseg : segment request st = none) :
    ((routeRight (step :: steps)).execute request st []).outcome =
      walk location (step :: steps) (piecesAfter (st.currentPath request)) := by
  rw [routeRight, execute_and_forward (step.execute_of_reject request fun _ _ h => by
    rw [hseg] at h; cases h)]
  rcases segment_eq_none.mp hseg with hcp | hcp <;> rw [hcp] <;> rfl

/-- **The route is `walk` on the pieces**, from every cursor, when the path is not
`""` or `"/"`. -/
theorem routeRight_walk (request : Request) (steps : List Step) (st : RequestState)
    (hpath : request.fullPath ≠ [] ∧ request.fullPath ≠ [47]) :
    ((routeRight steps).execute request st []).outcome =
      walk request.fullPath.dropLast steps (piecesAfter (st.currentPath request)) := by
  induction steps generalizing st with
  | nil => exact pathEnd_walk request st hpath
  | cons step steps ih =>
    rcases hseg : segment request st with _ | ⟨seg, len⟩
    · exact routeRight_walk_of_segment_none request _ step steps hseg
    have hpieces := segment_pieces hseg
    have hne : ¬(seg.isEmpty && (piecesAfter ((st.currentPath request).drop len)).isEmpty) := by
      intro hempty
      simp only [Bool.and_eq_true, List.isEmpty_iff] at hempty
      rw [hempty.1, hempty.2] at hpieces
      have := segment_eq_none.mpr (.inr (piecesAfter_eq_singleton_nil.mp hpieces))
      rw [hseg] at this
      cases this
    rw [hpieces, walk, if_neg hne]
    rcases ha : step.accept (decode seg) with _ | success
    · exact execute_and_forward (step.execute_of_reject request fun _ _ h => by
        rw [hseg] at h; cases h; exact ha)
    · simp only [routeRight, Filter.execute, step.execute_of_accept request hseg ha]
      show ((routeRight steps).execute request _ []).outcome.map _ = _
      rw [ih]
      simp only [RequestState.currentPath, RequestState.incrCurrentPathIndex, List.drop_drop,
        show Tuple.append success = (success ++ ·) from funext (Tuple.append_eq success)]

/-- **A route run from the start of the path is `walk` on the path's pieces.** -/
theorem route_walk (request : Request) (first : Step) (rest : List Step) (st : RequestState)
    (h0 : st.currentPathIndex = 0) :
    ((route first rest).execute request st []).outcome =
      walk request.fullPath.dropLast (first :: rest) (piecesAfter request.fullPath) := by
  have hcp : st.currentPath request = request.fullPath := by
    simp [RequestState.currentPath, h0]
  rw [execute_route]
  by_cases hpath : request.fullPath ≠ [] ∧ request.fullPath ≠ [47]
  · rw [routeRight_walk request _ st hpath, hcp]
  · rw [routeRight_walk_of_segment_none request _ first rest
      (segment_eq_none.mpr (by rw [hcp]; tauto)), hcp]

end Myth
