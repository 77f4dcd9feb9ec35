import Myth.Filter

/-!
# What the code's types guarantee

`Filter` has no types of its own; the code's trait bounds are `WellTyped`: `and()`
and `then()` run their first filter on `()`, `or()` joins two filters of one
signature, `then()`'s second filter takes the prepended input with the first's
success appended, `recover()` and `Cors` wrap filters with a one-tuple success,
`recover_forward()` a filter of unit input, and `untuple()` a filter whose one
success value is a tuple of its arity.

Type soundness is `execute_typed`: run on an input of the filter's input arity, a
well-typed filter succeeds with a tuple of its success arity, and forwards the very
input it was given.  `Then` and `Receive` keep the second fact only because
`Append::remove` undoes `append` at the arities their types fix (`Tuple.remove_append`,
`Tuple.append_remove`).

    execute_typed : WellTyped f → c.length = f.inputArity → Typed f.successArity c (execute f st c).outcome
-/

namespace Myth

/-! ## Typing -/

/-- What a run promises at the types: a success of `arity` values, and a forward
carrying back `input` itself. -/
def Typed (arity : Nat) (input : Tuple) : Outcome Tuple Tuple → Prop
  | .success success => success.length = arity
  | .error _ => True
  | .forward input' _ => input' = input

namespace Filter

/-- `untuple()`'s bound: whenever `f` succeeds, its one value is a tuple of `arity`
values. -/
def TupleValued (arity : Nat) (f : Filter) : Prop :=
  ∀ request st input success, (f.execute request st input).outcome = .success success →
    ∃ elems, success = [.tuple elems] ∧ elems.length = arity

/-- The trait bounds under which the code builds each combinator. -/
def WellTyped : Filter → Prop
  | leaf _ => True
  | and first second => first.inputArity = 0 ∧ first.WellTyped ∧ second.WellTyped
  | or first second => second.inputArity = first.inputArity ∧
      second.successArity = first.successArity ∧ first.WellTyped ∧ second.WellTyped
  | consume first second => first.inputArity = 0 ∧ first.successArity ≤ second.inputArity ∧
      first.WellTyped ∧ second.WellTyped
  | handle filter _ | receive _ filter | dynamic filter | arc filter => filter.WellTyped
  | recover filter _ _ | cors _ filter => filter.successArity = 1 ∧ filter.WellTyped
  | recoverForward filter _ _ => filter.inputArity = 0 ∧ filter.WellTyped
  | untuple arity filter => filter.successArity = 1 ∧ TupleValued arity filter ∧ filter.WellTyped

end Filter

/-! ## Lemmas -/

theorem typed_map {n m : Nat} {input : Tuple} {o : Outcome Tuple Tuple} {g : Tuple → Tuple}
    (h : Typed n input o) (hg : ∀ s : Tuple, s.length = n → (g s).length = m) :
    Typed m input (o.map g) := by
  cases o with
  | success s => exact hg s h
  | error => trivial
  | forward => exact h

theorem typed_ofResult {input : Tuple} (result : Except BoxedFilterError Val) :
    Typed 1 input (.ofResult (result.map fun ok => [ok])) := by
  cases result <;> trivial

/-- A leaf of unit input forwards the empty input, which is its input. -/
theorem typed_readyOutcome {n : Nat} {input : Tuple} (hc : input.length = 0)
    (r : RequestState × Outcome Unit Tuple) (h : ∀ s, r.2 = .success s → s.length = n) :
    Typed n input (readyOutcome r).outcome := by
  obtain rfl := List.length_eq_zero.mp hc
  rcases r with ⟨st, s | e | ⟨⟨⟩, reason⟩⟩
  · exact h s rfl
  · trivial
  · rfl

theorem decodedSegment_success {S : Type} {request : Request} {st : RequestState}
    {func : String → Option S} {s : S} (h : (decodedSegment request st func).2 = .success s) :
    ∃ segment, func segment = some s := by
  revert h
  unfold decodedSegment
  split
  · split
    · intro h
      cases h
      exact ⟨_, ‹_›⟩
    · intro h; cases h
  · intro h; cases h

theorem varyOriginResponder_length {s : Tuple} (h : s.length = 1) :
    (varyOriginResponder s).length = 1 := by
  match s, h with
  | [_], _ => rfl

theorem Cors.applyHeaders_length (cors : Cors) (origin : HeaderValue) (vary : Bool) {s : Tuple}
    (h : s.length = 1) : (cors.applyHeaders origin vary s).length = 1 := by
  match s, h with
  | [_], _ => rfl

namespace Leaf

theorem ifUnmodifiedSinceOutcome_typed (parseHttpDate : String → Option Nat) (request : Request)
    (input : Tuple) (modifiedTime : Nat) :
    Typed 1 input (ifUnmodifiedSinceOutcome parseHttpDate request input modifiedTime) := by
  unfold ifUnmodifiedSinceOutcome
  split_ifs
  · split
    · split
      · split_ifs <;> rfl
      · trivial
    · rfl
  · rfl

/-- Type soundness of the leaves. -/
theorem execute_typed (request : Request) (l : Leaf) (st : RequestState) (input : Tuple)
    (hc : input.length = l.inputArity) : Typed l.successArity input (l.execute request st input).outcome := by
  cases l with
  | ifUnmodifiedSince parseHttpDate => exact ifUnmodifiedSinceOutcome_typed _ _ _ _
  | xContentTypeOptions =>
    match input, hc with
    | [v], _ => cases v <;> rfl
  | takeBody =>
    show Typed 1 input (match st.body.awaitBody.2 with
      | .ok (bytes, len) => .success [.bytesBuf ⟨bytes, len⟩] | .error error => .error (.body error))
    split <;> trivial
  | any | never | extract _ =>
    obtain rfl : input = [] := List.length_eq_zero.mp hc
    rfl
  | methodIs m =>
    refine typed_readyOutcome hc _ fun s hs => ?_
    unfold methodFilter at hs
    split_ifs at hs
    cases hs
    rfl
  | literal lit =>
    refine typed_readyOutcome hc _ fun s hs => ?_
    obtain ⟨_, h⟩ := decodedSegment_success hs
    split_ifs at h
    cases h
    rfl
  | paramStr =>
    refine typed_readyOutcome hc _ fun s hs => ?_
    obtain ⟨_, h⟩ := decodedSegment_success hs
    cases h
    rfl
  | pathEnd =>
    refine typed_readyOutcome hc _ fun s hs => ?_
    unfold Myth.pathEnd at hs
    split_ifs at hs
    · cases hs; rfl
    · split at hs <;> cases hs
      rfl
  | tail =>
    exact typed_readyOutcome hc _ fun s hs => by cases hs; rfl
  | tailPath =>
    refine typed_readyOutcome hc _ fun s hs => ?_
    unfold Myth.tailPath at hs
    split at hs <;> cases hs
    rfl

end Leaf

namespace Filter

variable (request : Request)

/-- **Type soundness**: run on an input of its input arity, a well-typed filter
succeeds with a tuple of its success arity and forwards its own input. -/
theorem execute_typed (f : Filter) (hf : f.WellTyped) (st : RequestState) (input : Tuple)
    (hc : input.length = f.inputArity) :
    Typed f.successArity input (f.execute request st input).outcome := by
  induction f generalizing st input with
  | leaf l => exact l.execute_typed request st input hc
  | and a b iha ihb =>
    obtain ⟨ha₀, hwa, hwb⟩ := hf
    have ha := iha hwa st [] (by rw [ha₀]; rfl)
    simp only [execute]
    generalize execute request a st [] = ra at ha ⊢
    rcases ra with ⟨st₁, s₁ | e | ⟨c₁, r₁⟩⟩
    · refine typed_map (ihb hwb st₁ input hc) fun s hs => ?_
      simp only [Tuple.append_eq, List.length_append, successArity, hs, ← show s₁.length = _ from ha]
    · trivial
    · rfl
  | or a b iha ihb =>
    obtain ⟨hi, hs, hwa, hwb⟩ := hf
    have ha := iha hwa st input hc
    simp only [execute]
    generalize execute request a st input = ra at ha ⊢
    rcases ra with ⟨st₁, s₁ | e | ⟨c₁, r₁⟩⟩
    · exact ha
    · trivial
    · have hb := ihb hwb (st₁.setPathIndex st.currentPathIndex) c₁
        (by rw [show c₁ = input from ha, hi]; exact hc)
      dsimp only
      generalize execute request b (st₁.setPathIndex st.currentPathIndex) c₁ = rb at hb ⊢
      rcases rb with ⟨st₂, s₂ | e | ⟨c₂, r₂⟩⟩
      · exact hb.trans hs
      · trivial
      · exact hb.trans ha
  | consume a b iha ihb =>
    obtain ⟨ha₀, hle, hwa, hwb⟩ := hf
    have ha := iha hwa st [] (by rw [ha₀]; rfl)
    simp only [execute]
    generalize execute request a st [] = ra at ha ⊢
    rcases ra with ⟨st₁, s₁ | e | ⟨c₁, r₁⟩⟩
    · dsimp only
      have hlen : (Tuple.append input s₁).length = b.inputArity := by
        simp only [Tuple.append_eq, List.length_append, hc, inputArity]
        rw [show s₁.length = _ from ha]; omega
      have hb := ihb hwb st₁ _ hlen
      generalize execute request b st₁ (Tuple.append input s₁) = rb at hb ⊢
      rcases rb with ⟨st₂, s₂ | e | ⟨c₂, r₂⟩⟩
      · exact hb
      · trivial
      · show (Tuple.remove a.successArity c₂).1 = input
        rw [show c₂ = _ from hb, Tuple.append_eq, ← show s₁.length = _ from ha, Tuple.remove_append]
    · trivial
    · rfl
  | handle g func ih =>
    have hg := ih hf st input hc
    simp only [execute]
    generalize execute request g st input = rg at hg ⊢
    rcases rg with ⟨st₁, s₁ | e | ⟨c₁, r₁⟩⟩
    · exact typed_ofResult (func s₁)
    · trivial
    · exact hg
  | recover g E func ih =>
    obtain ⟨h₁, hw⟩ := hf
    have hg := ih hw st input hc
    simp only [execute]
    generalize execute request g st input = rg at hg ⊢
    rcases rg with ⟨st₁, s₁ | e | ⟨c₁, r₁⟩⟩
    · exact hg
    · dsimp only
      split
      · rw [successArity, h₁]; exact typed_ofResult (func _)
      · trivial
    · exact hg
  | recoverForward g E func ih =>
    obtain ⟨h₀, hw⟩ := hf
    obtain rfl : input = [] := List.length_eq_zero.mp hc
    have hg := ih hw st [] (by rw [h₀]; rfl)
    simp only [execute]
    generalize execute request g st [] = rg at hg ⊢
    rcases rg with ⟨st₁, s₁ | e | ⟨c₁, r₁⟩⟩
    · exact hg
    · dsimp only
      split
      · split <;> trivial
      · trivial
    · exact hg
  | receive r g ih =>
    simp only [inputArity] at hc
    have hsplit : Tuple.remove g.inputArity input = (input.take r, input.drop r) := by
      have h := Tuple.remove_append (input.take r) (input.drop r)
      rwa [List.take_append_drop, List.length_drop, hc, Nat.add_sub_cancel_left] at h
    have hg := ih hf st (input.drop r) (by rw [List.length_drop, hc, Nat.add_sub_cancel_left])
    simp only [execute, hsplit]
    generalize execute request g st (input.drop r) = rg at hg ⊢
    rcases rg with ⟨st₁, s₁ | e | ⟨c₁, r₁⟩⟩
    · show (Tuple.append _ s₁).length = r + g.successArity
      rw [Tuple.append_eq, List.length_append, List.length_take, show s₁.length = _ from hg, hc]
      omega
    · trivial
    · show Tuple.append _ c₁ = input
      rw [show c₁ = _ from hg, Tuple.append_eq, List.take_append_drop]
  | untuple k g ih =>
    obtain ⟨-, hv, hw⟩ := hf
    have hg := ih hw st input hc
    simp only [execute]
    generalize hrg : execute request g st input = rg at hg ⊢
    rcases rg with ⟨st₁, s₁ | e | ⟨c₁, r₁⟩⟩
    · obtain ⟨elems, rfl, hk⟩ := hv request st input s₁ (by rw [hrg])
      exact hk
    · trivial
    · exact hg
  | dynamic g ih | arc g ih => exact ih hf st input hc
  | cors c g ih =>
    obtain ⟨h₁, hw⟩ := hf
    have hg := ih hw st input hc
    simp only [execute]
    split
    · exact typed_map hg fun s hs => varyOriginResponder_length (hs.trans h₁)
    · rfl
    · exact typed_map hg fun s hs => c.applyHeaders_length _ _ (hs.trans h₁)

/-- A well-typed filter forwards exactly the input it was given. -/
theorem execute_forward_input (f : Filter) (hf : f.WellTyped) (st : RequestState)
    (input input' : Tuple) (forwarding : Forwarding) (hc : input.length = f.inputArity)
    (h : (f.execute request st input).outcome = .forward input' forwarding) : input' = input := by
  have typed := f.execute_typed request hf st input hc
  rw [h] at typed
  exact typed

/-- `Then` forwards its own input after its second filter forwarded the appended one:
`any().map(|| now).then(if_unmodified_since)` on a `GET` with no `If-Modified-Since`. -/
theorem execute_forward_input_then :
    let f := consume (leaf (.extract fun _ => .systemTime 0)) (leaf (.ifUnmodifiedSince fun _ => none))
    f.WellTyped ∧ ([] : Tuple).length = f.inputArity ∧
      (f.execute ⟨.get, [47], []⟩ (.new []) []).outcome = .forward [] .notFound ∧ ([] : Tuple) = [] := by
  intro f
  have hf : f.WellTyped := ⟨rfl, le_refl 1, trivial, trivial⟩
  exact ⟨hf, rfl, rfl, execute_forward_input ⟨.get, [47], []⟩ f hf (.new []) [] [] .notFound rfl rfl⟩

end Filter

end Myth
