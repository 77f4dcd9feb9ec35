import Myth.Filter

/-!
# `or()` trees are sequential fallback (`filter/or.rs`)

An `or()` tree of any shape tries its branches (`orBranches`, its maximal
subtrees that are not `or()`) from left to right: `orFallback` is that
description, written from what `Or` promises rather than from `OrFuture`.  The
cursor reset of every `OrFuture` makes each later branch start at the tree's entry
cursor, and `combine` being associative makes the nesting of the reasons immaterial.

    orFallback i (f.orBranches ++ bs) r st c =
      (run f; after a forward, orFallback i bs (r.combine r') …)   (orFallback_orBranches_append)
-/

namespace Myth.Filter

variable (request : Request)

/-- The branches of an `or()` tree, left to right. -/
def orBranches : Filter → List Filter
  | or first second => first.orBranches ++ second.orBranches
  | f => [f]

/-- Sequential fallback over `branches` from the cursor `index`: after a forward the
next branch runs on the forwarded input, from the returned state with the cursor set
back to `index`; the first success or error is the result; when every branch
forwards, the last input is forwarded with the reasons combined left to right. -/
def orFallback (index : Nat) : List Filter → Forwarding → RequestState → Tuple →
    RequestOutcome Tuple Tuple
  | [], reason, st, input => ⟨st, .forward input reason⟩
  | branch :: branches, reason, st, input =>
    match branch.execute request st input with
    | ⟨st', .forward input' reason'⟩ =>
      orFallback index branches (reason.combine reason') (st'.setPathIndex index) input'
    | result => result

/-- Running the branches of `f` and then `branches` is running `f` and then, if it
forwards, `branches`. -/
theorem orFallback_orBranches_append (f : Filter) (branches : List Filter) (reason : Forwarding)
    (st : RequestState) (input : Tuple) :
    orFallback request st.currentPathIndex (f.orBranches ++ branches) reason st input =
      match f.execute request st input with
      | ⟨st', .forward input' reason'⟩ =>
        orFallback request st.currentPathIndex branches (reason.combine reason')
          (st'.setPathIndex st.currentPathIndex) input'
      | result => result := by
  induction f generalizing reason st input branches with
  | or a b iha ihb =>
    rw [orBranches, List.append_assoc, iha]
    simp only [execute]
    rcases execute request a st input with ⟨st₁, _ | _ | ⟨input₁, reason₁⟩⟩
    · rfl
    · rfl
    · have ihb' := ihb branches (reason.combine reason₁) (st₁.setPathIndex st.currentPathIndex) input₁
      simp only [RequestState.setPathIndex_currentPathIndex] at ihb'
      simp only [ihb']
      rcases execute request b (st₁.setPathIndex st.currentPathIndex) input₁ with
        ⟨st₂, _ | _ | ⟨input₂, reason₂⟩⟩
      · rfl
      · rfl
      · simp [Forwarding.combine_assoc]
  | _ => rfl

/-- An `or()` tree hands back the entry cursor whenever it forwards. -/
theorem execute_or_reset (a b : Filter) (st : RequestState) (input : Tuple) :
    (match (or a b).execute request st input with
      | ⟨st', .forward input' reason'⟩ =>
        (⟨st'.setPathIndex st.currentPathIndex, .forward input' reason'⟩ : RequestOutcome Tuple Tuple)
      | result => result) = (or a b).execute request st input := by
  simp only [execute]
  rcases execute request a st input with ⟨st₁, _ | _ | ⟨input₁, reason₁⟩⟩
  · rfl
  · rfl
  · dsimp only
    rcases execute request b (st₁.setPathIndex st.currentPathIndex) input₁ with
      ⟨st₂, _ | _ | ⟨input₂, reason₂⟩⟩ <;> simp

theorem orBranches_ne_nil (f : Filter) : f.orBranches ≠ [] := by
  induction f <;> simp_all [orBranches]

/-- An `or()` node is the fallback over its branches. -/
theorem execute_or_orFallback (a b : Filter) (st : RequestState) (input : Tuple) :
    (or a b).execute request st input =
      orFallback request st.currentPathIndex (or a b).orBranches .notFound st input := by
  rw [← List.append_nil (or a b).orBranches, orFallback_orBranches_append, ← execute_or_reset]
  rcases (or a b).execute request st input with ⟨st', _ | _ | ⟨input', reason'⟩⟩ <;> rfl

/-- Every filter has the outcome of the fallback over its branches; a filter that is
not an `or()` differs from it only in the cursor it hands back after a forward. -/
theorem execute_outcome_orFallback (f : Filter) (st : RequestState) (input : Tuple) :
    (f.execute request st input).outcome =
      (orFallback request st.currentPathIndex f.orBranches .notFound st input).outcome := by
  rw [← List.append_nil f.orBranches, orFallback_orBranches_append]
  rcases f.execute request st input with ⟨st', _ | _ | ⟨input', reason'⟩⟩ <;> rfl

/-- When every branch forwards its input, the fallback forwards it with the reasons
combined left to right. -/
theorem orFallback_forward {α : Type} (index : Nat) (branch : α → Filter) (reason : α → Forwarding)
    (items : List α)
    (h : ∀ x ∈ items, ∀ st input, ((branch x).execute request st input).outcome =
      .forward input (reason x))
    (acc : Forwarding) (st : RequestState) (input : Tuple) :
    (orFallback request index (items.map branch) acc st input).outcome =
      .forward input ((items.map reason).foldl Forwarding.combine acc) := by
  induction items generalizing acc st with
  | nil => rfl
  | cons x items ih =>
    have hx := h x (List.mem_cons_self _ _) st input
    simp only [List.map_cons, orFallback]
    generalize (branch x).execute request st input = r at hx ⊢
    rcases r with ⟨st', _ | _ | ⟨input', reason'⟩⟩ <;> cases hx
    exact ih (fun y hy => h y (List.mem_cons_of_mem _ hy)) _ _

/-- One step of the fallback, read on the outcome of its first branch: a forward moves
on to the rest from the entry cursor, anything else is the result. -/
theorem orFallback_cons_outcome (index : Nat) (branch : Filter) (branches : List Filter)
    (reason : Forwarding) (st : RequestState) (input : Tuple) :
    (orFallback request index (branch :: branches) reason st input).outcome =
      match (branch.execute request st input).outcome with
      | .forward input' reason' => (orFallback request index branches (reason.combine reason')
          ((branch.execute request st input).requestState.setPathIndex index) input').outcome
      | o => o := by
  simp only [orFallback]
  rcases branch.execute request st input with ⟨st', _ | _ | _⟩ <;> rfl

/-- **`or()` is sequential fallback**, for every tree shape: the branches run left to
right, each after a forward from the entry cursor on the forwarded input; and the
combined reason is `MethodNotAllowed` of the union of the attempted sets as soon as
one reason is `MethodNotAllowed`.  Hence the two nestings of three branches agree. -/
theorem or_tree_fallback :
    (∀ (a b : Filter) (st : RequestState) (input : Tuple),
      (or a b).execute request st input =
        orFallback request st.currentPathIndex (or a b).orBranches .notFound st input) ∧
    (∀ reasons : List Forwarding, reasons.foldl Forwarding.combine .notFound =
      if ∀ r ∈ reasons, r = .notFound then .notFound
      else .methodNotAllowed (reasons.foldl (fun m r => m ||| r.attempted) .NONE)) ∧
    (∀ (a b d : Filter) (st : RequestState) (input : Tuple),
      (or (or a b) d).execute request st input = (or a (or b d)).execute request st input) := by
  refine ⟨execute_or_orFallback request, Forwarding.foldl_combine_notFound, fun a b d st input => ?_⟩
  rw [execute_or_orFallback, execute_or_orFallback]
  simp only [orBranches, List.append_assoc]

end Myth.Filter
