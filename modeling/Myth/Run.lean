import Myth.Filter

/-!
# What a run does to the request state, and where sub-filters run

Every combinator hands back either the state a child handed back or that state with
the cursor set back to its entry value (`or()`, `recover()`), and runs its children
from its own entry state or from a state an earlier child handed back.  So any
relation between entry and exit states that every leaf keeps and that is closed
under those moves holds of every run: `StateRel.execute`, by induction over the tree,
and `StateRel.reach` for the state every sub-filter is run from.

A sub-filter's place in a tree is a context: the frames from it to the root,
innermost first.  `Frame.reach` says whether a node runs its hole, and from which
state and on which input, as the node's future does before it polls the hole.

    StateRel.execute : R.rel st (f.execute st c).requestState
    StateRel.reach   : Context.reach ctx hole st c = some (st', c') → R.rel st st'
-/

namespace Myth

open Filter

/-! ## Frames and contexts -/

/-- One combinator node around a hole, with its other arguments. -/
inductive Frame where
  | andFirst (second : Filter)
  | andSecond (first : Filter)
  | orFirst (second : Filter)
  | orSecond (first : Filter)
  | consumeFirst (second : Filter)
  | consumeSecond (first : Filter)
  | handle (func : Tuple → Except BoxedFilterError Val)
  | recover (E : Recoverable) (func : BoxedFilterError → Except BoxedFilterError Val)
  | recoverForward (E : Recoverable) (func : BoxedFilterError → Except BoxedFilterError Forwarding)
  | receive (receive : Nat)
  | untuple (arity : Nat)
  | dynamic
  | arc
  | cors (cors : Cors)

namespace Frame

/-- The node with `hole` in its hole. -/
def plug : Frame → Filter → Filter
  | andFirst second, hole => .and hole second
  | andSecond first, hole => .and first hole
  | orFirst second, hole => .or hole second
  | orSecond first, hole => .or first hole
  | consumeFirst second, hole => .consume hole second
  | consumeSecond first, hole => .consume first hole
  | handle func, hole => .handle hole func
  | recover E func, hole => .recover hole E func
  | recoverForward E func, hole => .recoverForward hole E func
  | receive r, hole => .receive r hole
  | untuple arity, hole => .untuple arity hole
  | dynamic, hole => .dynamic hole
  | arc, hole => .arc hole
  | cors c, hole => .cors c hole

/-- The state and input the node, run from `st` on `input`, runs its hole from, if it
runs it at all. -/
def reach (request : Request) : Frame → Filter → RequestState → Tuple →
    Option (RequestState × Tuple)
  | andFirst _, _, st, _ | consumeFirst _, _, st, _ | recoverForward _ _, _, st, _ => some (st, [])
  | andSecond first, _, st, input =>
    match first.execute request st [] with
    | ⟨st', .success _⟩ => some (st', input)
    | _ => none
  | orSecond first, _, st, input =>
    match first.execute request st input with
    | ⟨st', .forward input' _⟩ => some (st'.setPathIndex st.currentPathIndex, input')
    | _ => none
  | consumeSecond first, _, st, prepend =>
    match first.execute request st [] with
    | ⟨st', .success success⟩ => some (st', Tuple.append prepend success)
    | _ => none
  | receive _, hole, st, input => some (st, (Tuple.remove hole.inputArity input).2)
  | cors c, _, st, input =>
    match c.dispatch request with
    | .respond _ => none
    | _ => some (st, input)
  | orFirst _, _, st, input | handle _, _, st, input | recover _ _, _, st, input
  | untuple _, _, st, input | dynamic, _, st, input | arc, _, st, input => some (st, input)

end Frame

/-- The frames from a hole to the root of a tree, innermost first. -/
abbrev Context := List Frame

namespace Context

/-- The tree with `hole` in the context's hole. -/
def plug : Context → Filter → Filter
  | [], hole => hole
  | frame :: ctx, hole => plug ctx (frame.plug hole)

/-- The state and input the tree, run from `st` on `input`, runs its hole from, if it
runs it at all. -/
def reach (request : Request) : Context → Filter → RequestState → Tuple →
    Option (RequestState × Tuple)
  | [], _, st, input => some (st, input)
  | frame :: ctx, hole, st, input =>
    (reach request ctx (frame.plug hole) st input).bind fun (st', input') =>
      frame.reach request hole st' input'

theorem reach_cons_eq_some {request : Request} {frame : Frame} {ctx : Context} {hole : Filter}
    {st st' : RequestState} {input input' : Tuple}
    (h : reach request (frame :: ctx) hole st input = some (st', input')) :
    ∃ st₁ input₁, reach request ctx (frame.plug hole) st input = some (st₁, input₁) ∧
      frame.reach request hole st₁ input₁ = some (st', input') := by
  simp only [reach, Option.bind_eq_some] at h
  obtain ⟨⟨st₁, input₁⟩, h₁, h₂⟩ := h
  exact ⟨st₁, input₁, h₁, h₂⟩

end Context

/-! ## What a leaf does to the state -/

theorem decodedSegment_state {S : Type} (request : Request) (st : RequestState)
    (func : String → Option S) :
    (decodedSegment request st func).1 = st ∨ ∃ seg len, segment request st = some (seg, len) ∧
      (decodedSegment request st func).1 = st.incrCurrentPathIndex len := by
  unfold decodedSegment
  split
  · rename_i seg len hseg
    split
    · exact .inr ⟨seg, len, hseg, rfl⟩
    · exact .inl rfl
  · exact .inl rfl

/-- A leaf hands back the state it was given, or moves the cursor past the segment
it read, or moves the cursor to the end, or (`body::all()`) polls the body. -/
theorem Leaf.execute_requestState (request : Request) (l : Leaf) (st : RequestState)
    (input : Tuple) :
    (l.execute request st input).requestState = st ∨
      (∃ seg len, segment request st = some (seg, len) ∧
        (l.execute request st input).requestState = st.incrCurrentPathIndex len) ∨
      (l.execute request st input).requestState = st.endCurrentPathIndex request ∨
      (l.execute request st input).requestState = { st with body := st.body.awaitBody.1 } := by
  cases l with
  | literal lit => exact (decodedSegment_state request st _).imp id .inl
  | paramStr => exact (decodedSegment_state request st _).imp id .inl
  | tail => exact .inr (.inr (.inl rfl))
  | tailPath =>
    have h : (Myth.tailPath request st).1 = st ∨
        (Myth.tailPath request st).1 = st.endCurrentPathIndex request := by
      unfold Myth.tailPath
      split
      · exact .inr rfl
      · exact .inl rfl
    exact h.imp id fun h => .inr (.inl h)
  | methodIs m =>
    refine .inl (show (Leaf.methodFilter m request st).1 = st from ?_)
    unfold Leaf.methodFilter
    split_ifs <;> rfl
  | pathEnd =>
    refine .inl (show (Myth.pathEnd request st).1 = st from ?_)
    unfold Myth.pathEnd
    split_ifs
    · rfl
    · split <;> rfl
  | takeBody => exact .inr (.inr (.inr rfl))
  | any | never | extract _ | ifUnmodifiedSince _ | xContentTypeOptions => exact .inl rfl

/-! ## Relations every run keeps -/

/-- A relation between the state a filter runs from and the state it hands back,
closed under the moves of the combinators: handing a child's state on, running a
child from it, and setting the cursor back to the entry value. -/
structure StateRel (request : Request) where
  rel : RequestState → RequestState → Prop
  refl : ∀ st, rel st st
  trans : ∀ {s₁ s₂ s₃}, rel s₁ s₂ → rel s₂ s₃ → rel s₁ s₃
  reset : ∀ {st st'}, rel st st' → rel st (st'.setPathIndex st.currentPathIndex)
  leaf : ∀ l st input, rel st (Leaf.execute request l st input).requestState

namespace StateRel

variable {request : Request} (R : StateRel request)

/-- Every run keeps the relation. -/
theorem execute (f : Filter) (st : RequestState) (input : Tuple) :
    R.rel st (f.execute request st input).requestState := by
  induction f generalizing st input with
  | leaf l => exact R.leaf l st input
  | and a b iha ihb | consume a b iha ihb =>
    have ha := iha st []
    simp only [Filter.execute]
    generalize Filter.execute request a st [] = ra at ha ⊢
    rcases ra with ⟨st₁, s₁ | e | ⟨c₁, r₁⟩⟩
    · exact R.trans ha (ihb st₁ _)
    · exact ha
    · exact ha
  | or a b iha ihb =>
    have ha := iha st input
    simp only [Filter.execute]
    generalize Filter.execute request a st input = ra at ha ⊢
    rcases ra with ⟨st₁, s₁ | e | ⟨c₁, r₁⟩⟩
    · exact ha
    · exact ha
    · have hb := R.trans (R.reset ha) (ihb (st₁.setPathIndex st.currentPathIndex) c₁)
      dsimp only
      generalize Filter.execute request b (st₁.setPathIndex st.currentPathIndex) c₁ = rb at hb ⊢
      rcases rb with ⟨st₂, s₂ | e | ⟨c₂, r₂⟩⟩
      · exact hb
      · exact hb
      · exact R.reset hb
  | handle g func ih =>
    have hg := ih st input
    simp only [Filter.execute]
    generalize Filter.execute request g st input = rg at hg ⊢
    rcases rg with ⟨st₁, s₁ | e | ⟨c₁, r₁⟩⟩ <;> exact hg
  | recover g E func ih =>
    have hg := ih st input
    simp only [Filter.execute]
    generalize Filter.execute request g st input = rg at hg ⊢
    rcases rg with ⟨st₁, s₁ | e | ⟨c₁, r₁⟩⟩
    · exact R.reset hg
    · dsimp only
      split
      · exact R.reset hg
      · exact hg
    · exact hg
  | recoverForward g E func ih =>
    have hg := ih st []
    simp only [Filter.execute]
    generalize Filter.execute request g st [] = rg at hg ⊢
    rcases rg with ⟨st₁, s₁ | e | ⟨c₁, r₁⟩⟩
    · exact hg
    · dsimp only
      split <;> exact hg
    · exact hg
  | receive r g ih =>
    simp only [Filter.execute]
    have hg := ih st (Tuple.remove g.inputArity input).2
    generalize Filter.execute request g st (Tuple.remove g.inputArity input).2 = rg at hg ⊢
    rcases rg with ⟨st₁, s₁ | e | ⟨c₁, r₁⟩⟩ <;> exact hg
  | untuple _ g ih | dynamic g ih | arc g ih => exact ih st input
  | cors c g ih =>
    simp only [Filter.execute]
    split
    · exact ih st input
    · exact R.refl st
    · exact ih st input

/-- Every node runs its hole from a state the relation reaches. -/
theorem frame_reach (frame : Frame) (hole : Filter) {st st' : RequestState} {input input' : Tuple}
    (h : frame.reach request hole st input = some (st', input')) : R.rel st st' := by
  cases frame with
  | andSecond first | consumeSecond first =>
    simp only [Frame.reach] at h
    have hf := R.execute first st []
    generalize Filter.execute request first st [] = r at hf h
    rcases r with ⟨st₁, s₁ | e | ⟨c₁, r₁⟩⟩ <;> cases h
    exact hf
  | orSecond first =>
    simp only [Frame.reach] at h
    have hf := R.execute first st input
    generalize Filter.execute request first st input = r at hf h
    rcases r with ⟨st₁, s₁ | e | ⟨c₁, r₁⟩⟩ <;> cases h
    exact R.reset hf
  | cors c =>
    simp only [Frame.reach] at h
    split at h <;> cases h
    exact R.refl st
  | _ => cases h; exact R.refl st

/-- Every sub-filter of a tree is run from a state the relation reaches. -/
theorem reach (ctx : Context) (hole : Filter) {st st' : RequestState} {input input' : Tuple}
    (h : ctx.reach request hole st input = some (st', input')) : R.rel st st' := by
  induction ctx generalizing hole st' input' with
  | nil => cases h; exact R.refl st
  | cons frame ctx ih =>
    obtain ⟨st₁, input₁, h₁, h₂⟩ := Context.reach_cons_eq_some h
    exact R.trans (ih (frame.plug hole) h₁) (R.frame_reach frame hole h₂)

end StateRel

end Myth
