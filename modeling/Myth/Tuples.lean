import Mathlib.Data.List.Basic

/-!
# Value lists: `generics/tuples.rs`

The code's tuples are typed and at most 12 long; the model keeps their elements in a
list, and a tuple's arity is the list's length.  `append` recurses on the ending as
`impl Append<Ending> for T` does, moving the ending's first element (`PopOne`) to the
end of the beginning (`AppendOne`); `remove` recurses on the ending's arity, removing
the last element of the beginning (`RemoveOne`) and pushing it onto the ending
(`PushOne`).  The Rust types fix the ending's arity, so `remove` takes it.

    append a b = a ++ b                                           (append_eq)
    remove b.length (append a b) = (a, b)                         (remove_append)
    c.length = m + n → append (remove n c).1 (remove n c).2 = c   (append_remove)
-/

namespace Myth.Tuple

variable {α : Type}

/-- `AppendOne::append_one`. -/
def appendOne (t : List α) (elem : α) : List α := t ++ [elem]

/-- `PushOne::push_one`. -/
def pushOne (t : List α) (elem : α) : List α := elem :: t

/-- `RemoveOne::remove_one`: the tuple without its last element, and that element. -/
def removeOne (t : List α) : Option (List α × α) :=
  t.getLast?.map fun last => (t.dropLast, last)

/-- `Append::append`: the empty ending is `impl Append<()>`; otherwise pop the ending's
first element, append it to `t`, and append the rest. -/
def append (t : List α) : List α → List α
  | [] => t
  | elem :: ending => append (appendOne t elem) ending

/-- `Append::remove` for an ending of arity `n`.  The `none` case is a tuple shorter
than its type, which the code cannot build. -/
def remove : Nat → List α → List α × List α
  | 0, appended => (appended, [])
  | n + 1, appended =>
    match remove n appended with
    | (appended, ending) =>
      match removeOne appended with
      | some (beginning, elem) => (beginning, pushOne ending elem)
      | none => (appended, ending)

theorem append_eq (t ending : List α) : append t ending = t ++ ending := by
  induction ending generalizing t with
  | nil => simp [append]
  | cons elem ending ih => simp [append, ih, appendOne]

theorem removeOne_appendOne (t : List α) (elem : α) :
    removeOne (appendOne t elem) = some (t, elem) := by
  simp [removeOne, appendOne]

theorem remove_append (t ending : List α) : remove ending.length (t ++ ending) = (t, ending) := by
  induction ending generalizing t with
  | nil => simp [remove]
  | cons elem ending ih =>
    have h : t ++ elem :: ending = appendOne t elem ++ ending := by simp [appendOne]
    rw [List.length_cons, h, remove, ih]
    simp [removeOne_appendOne, pushOne]

theorem append_remove (c : List α) (m n : Nat) (h : c.length = m + n) :
    append (remove n c).1 (remove n c).2 = c := by
  have hn : (c.drop m).length = n := by simp [h]
  have hc : remove n c = (c.take m, c.drop m) := by
    have := remove_append (c.take m) (c.drop m)
    rwa [List.take_append_drop, hn] at this
  rw [hc, append_eq, List.take_append_drop]

/-- `append` is concatenation, and `remove` at the ending's arity undoes it both ways. -/
theorem append_remove_inverse (a b c : List α) (hc : c.length = a.length + b.length) :
    append a b = a ++ b ∧ remove b.length (append a b) = (a, b) ∧
      append (remove b.length c).1 (remove b.length c).2 = c :=
  ⟨append_eq a b, by rw [append_eq, remove_append], append_remove c a.length b.length hc⟩

theorem append_remove_inverse_two_one :
    [4, 5, 6].length = [1, 2].length + [3].length ∧
      (append [1, 2] [3] = [1, 2] ++ [3] ∧ remove [3].length (append [1, 2] [3]) = ([1, 2], [3]) ∧
        append (remove [3].length [4, 5, 6]).1 (remove [3].length [4, 5, 6]).2 = [4, 5, 6]) :=
  ⟨rfl, append_remove_inverse [1, 2] [3] [4, 5, 6] rfl⟩

end Myth.Tuple
