import Myth.Typing

/-!
# `and()` trees are sequential composition (`filter/and.rs`)

An `and()` tree of any shape runs its steps (`andBranches`, its maximal subtrees
that are not `and()`) from left to right, threading the state: every step but the
last runs on `()`, the last on the tree's input, and the successes are concatenated
in order.  `andSequence` is that description, written from what `And` promises
rather than from `AndFuture`.  The two agree on every tree whose last step forwards
its own input, which `Filter.execute_typed` gives for every well-typed tree.

    andSequence c (f.andBranches ++ steps) st s =
      (run f; after a success, andSequence c steps …)     (andSequence_andBranches_append)
    execute (and (and a b) d) = execute (and a (and b d))  (execute_and_assoc)
-/

namespace Myth.Filter

variable (request : Request)

/-- The steps of an `and()` tree, left to right. -/
def andBranches : Filter → List Filter
  | and first second => first.andBranches ++ second.andBranches
  | f => [f]

theorem andBranches_ne_nil (f : Filter) : f.andBranches ≠ [] := by
  induction f <;> simp_all [andBranches]

/-- Sequential composition over `steps`: every step but the last runs on `()`, the
last on `input`; the first forward hands back `input`, the first error stops, and
when every step succeeds the successes are concatenated after `success`. -/
def andSequence (input : Tuple) : List Filter → RequestState → Tuple → RequestOutcome Tuple Tuple
  | [], st, success => ⟨st, .success success⟩
  | step :: steps, st, success =>
    match step.execute request st (if steps.isEmpty then input else []) with
    | ⟨st', .success s⟩ => andSequence input steps st' (success ++ s)
    | ⟨st', .error e⟩ => ⟨st', .error e⟩
    | ⟨st', .forward _ forwarding⟩ => ⟨st', .forward input forwarding⟩

/-- Running the steps of `f` and then `steps` is running `f` and then, if it
succeeds, `steps`. -/
theorem andSequence_andBranches_append (input : Tuple) (f : Filter) (steps : List Filter)
    (st : RequestState) (success : Tuple) :
    andSequence request input (f.andBranches ++ steps) st success =
      match f.execute request st (if steps.isEmpty then input else []) with
      | ⟨st', .success s⟩ => andSequence request input steps st' (success ++ s)
      | ⟨st', .error e⟩ => ⟨st', .error e⟩
      | ⟨st', .forward _ forwarding⟩ => ⟨st', .forward input forwarding⟩ := by
  induction f generalizing steps st success with
  | and a b iha ihb =>
    have hne : (b.andBranches ++ steps).isEmpty = false := by
      simp [List.isEmpty_iff, andBranches_ne_nil]
    rw [andBranches, List.append_assoc, iha, hne]
    simp only [execute, Bool.false_eq_true, if_false]
    rcases execute request a st [] with ⟨st₁, s₁ | e | ⟨c₁, r₁⟩⟩
    · dsimp only
      rw [ihb]
      rcases execute request b st₁ (if steps.isEmpty then input else []) with
        ⟨st₂, s₂ | e | ⟨c₂, r₂⟩⟩
      · simp [RequestOutcome.map, Outcome.map, Tuple.append_eq]
      · rfl
      · rfl
    · rfl
    · rfl
  | _ => rfl

/-- `and()` is associative, for every three filters. -/
theorem execute_and_assoc (a b d : Filter) (st : RequestState) (input : Tuple) :
    (and (and a b) d).execute request st input = (and a (and b d)).execute request st input := by
  simp only [execute]
  rcases execute request a st [] with ⟨st₁, s₁ | e | ⟨c₁, r₁⟩⟩ <;>
    simp only [RequestOutcome.map, Outcome.map]
  rcases execute request b st₁ [] with ⟨st₂, s₂ | e | ⟨c₂, r₂⟩⟩ <;>
    simp only [RequestOutcome.map, Outcome.map]
  rcases execute request d st₂ input with ⟨st₃, s₃ | e | ⟨c₃, r₃⟩⟩ <;>
    simp [RequestOutcome.map, Outcome.map, Tuple.append_eq]

/-- **`and()` is sequential composition**, for every well-typed tree shape: the steps
run left to right threading the state, and the result is the concatenated successes,
or the first error, or a forward of the tree's input at the first step that forwards.
And the two nestings of three steps agree on every filter. -/
theorem and_tree_sequence :
    (∀ (a b : Filter), (and a b).WellTyped → ∀ (st : RequestState) (input : Tuple),
      input.length = (and a b).inputArity →
      (and a b).execute request st input = andSequence request input (and a b).andBranches st []) ∧
    (∀ (a b d : Filter) (st : RequestState) (input : Tuple),
      (and (and a b) d).execute request st input = (and a (and b d)).execute request st input) := by
  refine ⟨fun a b hf st input hc => ?_, execute_and_assoc request⟩
  rw [← List.append_nil (and a b).andBranches, andSequence_andBranches_append]
  have typed := (and a b).execute_typed request hf st input hc
  simp only [List.isEmpty_nil, if_true]
  generalize (and a b).execute request st input = r at typed ⊢
  rcases r with ⟨st', s | e | ⟨c', r'⟩⟩
  · rfl
  · rfl
  · rw [show c' = input from typed]

/-- The route `param_str().and(param_str()).and(end())` on `/a/b`. -/
theorem and_tree_sequence_two_params :
    let f := and (and (leaf .paramStr) (leaf .paramStr)) (leaf .pathEnd)
    let request : Request := ⟨.get, [47, 97, 47, 98], []⟩
    f.WellTyped ∧ ([] : Tuple).length = f.inputArity ∧
      f.execute request (.new []) [] = andSequence request [] f.andBranches (.new []) [] := by
  intro f request
  have hf : f.WellTyped := ⟨rfl, ⟨rfl, trivial, trivial⟩, trivial⟩
  exact ⟨hf, rfl, (and_tree_sequence request).1 (and (leaf .paramStr) (leaf .paramStr)) (leaf .pathEnd)
    hf (.new []) [] rfl⟩

end Myth.Filter
