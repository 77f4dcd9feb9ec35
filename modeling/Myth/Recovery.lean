import Myth.Run
import Myth.Library

/-!
# Errors travel to the root or to a recovery of their type (`errors.rs`, `filter/recover*.rs`)

Every combinator hands an error of a child on at once, with the child's state, and
runs no further child; only `recover()` and `recover_forward()` look at an error, and
only `E::recover`, a downcast to exactly `E` (or any error for `BoxedFilterError`),
decides whether they catch it.  A frame is `Transparent` for an error when it hands
it on: every frame but a recovery of the error's type.  Through a context of
transparent frames an error reaches the root unchanged (`Context.plug_error`), and
the innermost recovery of its type is the one whose function is called.

When its filter does not fail with an error of type `E`, `recover_forward()` is the
identity on outcome and state, and `recover()` is too except after a success, where
`RecoverFuture` sets the cursor back to its entry value (recover.rs, lines 156-161).

    Frame.plug_error   : one transparent frame hands its hole's error on
    Context.plug_error : so does every context of them
-/

namespace Myth

open Filter

variable (request : Request)

namespace Frame

/-- Whether the node hands an error of its hole on unchanged: every node but a
recovery whose type the error has. -/
def Transparent (error : BoxedFilterError) : Frame → Prop
  | recover E _ | recoverForward E _ => ¬E.Matches error
  | andFirst _ | andSecond _ | orFirst _ | orSecond _ | consumeFirst _ | consumeSecond _
  | handle _ | receive _ | untuple _ | dynamic | arc | cors _ => True

instance (error : BoxedFilterError) (frame : Frame) : Decidable (frame.Transparent error) :=
  match frame with
  | recover E _ | recoverForward E _ => inferInstanceAs (Decidable ¬E.Matches error)
  | andFirst _ | andSecond _ | orFirst _ | orSecond _ | consumeFirst _ | consumeSecond _
  | handle _ | receive _ | untuple _ | dynamic | arc | cors _ => isTrue trivial

/-- A transparent node hands the error of its hole on, with the hole's state. -/
theorem plug_error (frame : Frame) (hole : Filter) {error : BoxedFilterError}
    (ht : frame.Transparent error) {st st' st'' : RequestState} {input input' : Tuple}
    (hr : frame.reach request hole st input = some (st', input'))
    (he : hole.execute request st' input' = ⟨st'', .error error⟩) :
    (frame.plug hole).execute request st input = ⟨st'', .error error⟩ := by
  cases frame with
  | andSecond first | consumeSecond first =>
    simp only [reach] at hr
    simp only [plug, execute]
    generalize first.execute request st [] = r at hr ⊢
    rcases r with ⟨st₁, s₁ | e | ⟨c₁, r₁⟩⟩ <;> cases hr
    simp only [he]
    rfl
  | orSecond first =>
    simp only [reach] at hr
    simp only [plug, execute]
    generalize first.execute request st input = r at hr ⊢
    rcases r with ⟨st₁, s₁ | e | ⟨c₁, r₁⟩⟩ <;> cases hr
    simp only [he]
  | recover E func =>
    cases hr
    simp only [plug, execute, he, Recoverable.recover_of_not_matches ht]
  | recoverForward E func =>
    cases hr
    simp only [plug, execute, he, Recoverable.recover_of_not_matches ht]
  | cors c =>
    simp only [reach] at hr
    simp only [plug, execute]
    rcases hd : c.dispatch request with _ | response | ⟨origin, vary⟩ <;> rw [hd] at hr <;>
      cases hr <;> simp only [he] <;> rfl
  | receive r =>
    cases hr
    simp only [plug, execute, he]
  | andFirst _ | orFirst _ | consumeFirst _ | handle _ | untuple _ | dynamic | arc =>
    cases hr
    simp only [plug, execute, he] <;> rfl

end Frame

/-- Through transparent frames, an error reaches the root unchanged, with the state
of the filter that returned it. -/
theorem Context.plug_error (ctx : Context) (hole : Filter) {error : BoxedFilterError}
    (ht : ∀ frame ∈ ctx, frame.Transparent error) {st st' st'' : RequestState}
    {input input' : Tuple} (hr : ctx.reach request hole st input = some (st', input'))
    (he : hole.execute request st' input' = ⟨st'', .error error⟩) :
    (ctx.plug hole).execute request st input = ⟨st'', .error error⟩ := by
  induction ctx generalizing hole st' input' with
  | nil => cases hr; exact he
  | cons frame ctx ih =>
    obtain ⟨st₁, input₁, h₁, h₂⟩ := Context.reach_cons_eq_some hr
    exact ih (frame.plug hole) (fun f hf => ht f (List.mem_cons_of_mem _ hf)) h₁
      (frame.plug_error request hole (ht frame (List.mem_cons_self _ _)) h₂ he)

/-- **Errors are handed on, or caught by the innermost recovery of their type.**
Through a context of transparent frames an error of a sub-filter reaches the root
unchanged with that sub-filter's state (so `or()` never tries another branch after
an error, such as `end()`'s redirect); a `recover()` or `recover_forward()` of its
type right outside such a context calls its function on the error. -/
theorem error_propagation :
    (∀ (ctx : Context) (hole : Filter) (error : BoxedFilterError) (st st' st'' : RequestState)
      (input input' : Tuple), (∀ frame ∈ ctx, frame.Transparent error) →
      ctx.reach request hole st input = some (st', input') →
      hole.execute request st' input' = ⟨st'', .error error⟩ →
      (ctx.plug hole).execute request st input = ⟨st'', .error error⟩) ∧
    (∀ (ctx : Context) (hole : Filter) (E : Recoverable)
      (func : BoxedFilterError → Except BoxedFilterError Val) (error : BoxedFilterError)
      (st st' st'' : RequestState) (input input' : Tuple),
      (∀ frame ∈ ctx, frame.Transparent error) → E.Matches error →
      ctx.reach request hole st input = some (st', input') →
      hole.execute request st' input' = ⟨st'', .error error⟩ →
      (recover (ctx.plug hole) E func).execute request st input =
        ⟨st''.setPathIndex st.currentPathIndex, .ofResult ((func error).map fun ok => [ok])⟩) ∧
    (∀ (ctx : Context) (hole : Filter) (E : Recoverable)
      (func : BoxedFilterError → Except BoxedFilterError Forwarding) (error : BoxedFilterError)
      (st st' st'' : RequestState) (input input' : Tuple),
      (∀ frame ∈ ctx, frame.Transparent error) → E.Matches error →
      ctx.reach request hole st [] = some (st', input') →
      hole.execute request st' input' = ⟨st'', .error error⟩ →
      (recoverForward (ctx.plug hole) E func).execute request st input =
        ⟨st'', match func error with
          | .ok forwarding => .forward [] forwarding
          | .error error => .error error⟩) := by
  refine ⟨fun ctx hole error st st' st'' input input' ht hr he =>
      Context.plug_error request ctx hole ht hr he, ?_, ?_⟩
  · intro ctx hole E func error st st' st'' input input' ht hm hr he
    simp only [execute, Context.plug_error request ctx hole ht hr he,
      Recoverable.recover_of_matches hm]
  · intro ctx hole E func error st st' st'' input input' ht hm hr he
    rcases hf : func error with e | forwarding <;>
      simp only [execute, Context.plug_error request ctx hole ht hr he,
        Recoverable.recover_of_matches hm, hf]

/-- `end()`'s redirect on `/a/`, from inside `param::<String>().and(end().or(any()))`
under a `recover()` for `json::Error`, reaches the root. -/
theorem error_propagation_redirect :
    let request : Request := ⟨.get, [47, 97, 47], []⟩
    let ctx : Context := [.orFirst (.leaf .any), .andSecond (Filter.param fun s => some (.str s)),
      .recover (.error .json) fun _ => .ok (.str "")]
    let st : RequestState := ⟨.pending [] [] 0, 2⟩
    ((∀ frame ∈ ctx, frame.Transparent (.redirect [47, 97])) ∧
      ctx.reach request (.leaf .pathEnd) (.new []) [] = some (st, []) ∧
      (Filter.leaf .pathEnd).execute request st [] = ⟨st, .error (.redirect [47, 97])⟩) ∧
    (ctx.plug (.leaf .pathEnd)).execute request (.new []) [] = ⟨st, .error (.redirect [47, 97])⟩ := by
  intro request ctx st
  have ht : ∀ frame ∈ ctx, frame.Transparent (.redirect [47, 97]) := by decide
  exact ⟨⟨ht, rfl, rfl⟩, (error_propagation request).1 ctx (.leaf .pathEnd) _ (.new []) st st [] [] ht rfl rfl⟩

/-! ## Recovery layers that recover nothing -/

/-- A `recover()` whose function does not run moves the cursor back after a success:
`param::<String>()` on `/x` hands back cursor 2, wrapped in `recover()` cursor 0. -/
theorem recover_moves_cursor_back :
    let request : Request := ⟨.get, [47, 120], []⟩
    let T := Filter.param fun s => some (.str s)
    (∃ s, (T.execute request (.new []) []).outcome = .success s) ∧
      (T.execute request (.new []) []).requestState.currentPathIndex = 2 ∧
      ((recover T (.error .json) fun _ => .ok (.str "")).execute request (.new [])
        []).requestState.currentPathIndex = 0 :=
  ⟨⟨_, rfl⟩, rfl, rfl⟩

/-- **What a recovery that recovers nothing does.**  Unless its filter fails with an
error of type `E`, `recover_forward()` returns the filter's outcome and state, and
`recover()` returns the filter's outcome, with the filter's state except that after a
success the cursor is set back to its entry value. -/
theorem recover_frame (T : Filter) (E : Recoverable)
    (func : BoxedFilterError → Except BoxedFilterError Val)
    (funcForward : BoxedFilterError → Except BoxedFilterError Forwarding)
    (st : RequestState) (input : Tuple) :
    ((∀ error, (T.execute request st input).outcome = .error error → ¬E.Matches error) →
      (recover T E func).execute request st input =
        ⟨if (T.execute request st input).outcome.isSuccess then
            (T.execute request st input).requestState.setPathIndex st.currentPathIndex
          else (T.execute request st input).requestState,
          (T.execute request st input).outcome⟩) ∧
    ((∀ error, (T.execute request st []).outcome = .error error → ¬E.Matches error) →
      (recoverForward T E funcForward).execute request st input = T.execute request st []) := by
  constructor
  · intro h
    simp only [execute]
    generalize T.execute request st input = r at h ⊢
    rcases r with ⟨st', s | e | ⟨c, r⟩⟩
    · rfl
    · simp only [Recoverable.recover_of_not_matches (h e rfl)]
      rfl
    · rfl
  · intro h
    simp only [execute]
    generalize T.execute request st [] = r at h ⊢
    rcases r with ⟨st', s | e | ⟨c, r⟩⟩
    · rfl
    · simp only [Recoverable.recover_of_not_matches (h e rfl)]
    · rfl

/-- At `param::<String>()` on `/x`, which succeeds: the cursor `recover()` hands back is
the entry cursor. -/
theorem recover_frame_param :
    let request : Request := ⟨.get, [47, 120], []⟩
    let T := Filter.param fun s => some (.str s)
    (∀ error, (T.execute request (.new []) []).outcome = .error error →
      ¬(Recoverable.error .json).Matches error) ∧
    (recover T (.error .json) (fun _ => .ok (.str ""))).execute request (.new []) [] =
      ⟨(T.execute request (.new []) []).requestState.setPathIndex 0,
        (T.execute request (.new []) []).outcome⟩ := by
  intro request T
  have h : ∀ error, (T.execute request (.new []) []).outcome = .error error →
      ¬(Recoverable.error .json).Matches error := fun _ h => by cases h
  exact ⟨h, ((recover_frame request T (.error .json) (fun _ => .ok (.str "")) (fun _ => .ok .notFound)
    (.new []) []).1 h).trans rfl⟩

end Myth
