import Myth.Run

/-!
# The path cursor stays on a `/` or an end (`request.rs`, `path.rs`)

`current_path` and `previous_path` slice `full_path()` at the cursor, which panics
unless the cursor is in bounds and on a char boundary.  The segment leaves move the
cursor past one piece, onto the next `/` or the end (`segment_spec`); `tail` and
`tail_path` move it to the end; `or()` and `recover()` set it back to an earlier
value.  So from a valid cursor (`ValidIndex`: the start, the end or a `/`) the cursor
only moves forward and stays valid, over every run (`cursorRel`, a `StateRel`), and
every sub-filter of a tree is run from a valid cursor.

    validIndex_advance : the cursor a segment leaf moves to is valid
-/

namespace Myth

variable (request : Request)

/-- Moving past a piece onto what follows it, a `/` or nothing, lands on a valid
cursor. -/
theorem validIndex_advance {path : List UInt8} {index len : Nat} (hindex : index ≤ path.length)
    (hlen : len ≤ (path.drop index).length)
    (hrest : (path.drop index).drop len = [] ∨ ∃ rest, (path.drop index).drop len = 47 :: rest) :
    ValidIndex path (index + len) := by
  rw [List.length_drop] at hlen
  rw [List.drop_drop] at hrest
  refine ⟨by omega, .inr ?_⟩
  rcases hrest with hnil | ⟨rest, hcons⟩
  · exact .inl (by have := List.drop_eq_nil_iff.mp hnil; omega)
  · right
    have := congrArg (·[0]?) hcons
    simpa [List.getElem?_drop] using this

/-- Every leaf keeps the cursor valid and moves it only forward. -/
theorem Leaf.execute_cursor (l : Leaf) (st : RequestState) (input : Tuple)
    (h : ValidIndex request.fullPath st.currentPathIndex) :
    st.currentPathIndex ≤ (l.execute request st input).requestState.currentPathIndex ∧
      ValidIndex request.fullPath (l.execute request st input).requestState.currentPathIndex := by
  rcases l.execute_requestState request st input with hst | ⟨seg, len, hseg, hst⟩ | hst | hst <;>
    rw [hst]
  · exact ⟨le_rfl, h⟩
  · obtain ⟨-, -, hlen, -, -, hrest⟩ := segment_spec hseg
    exact ⟨Nat.le_add_right _ _, validIndex_advance h.1 hlen hrest⟩
  · exact ⟨h.1, le_rfl, .inr (.inl rfl)⟩
  · exact ⟨le_rfl, h⟩

/-- From a valid cursor, the cursor only moves forward and stays valid. -/
def cursorRel : StateRel request where
  rel st st' := ValidIndex request.fullPath st.currentPathIndex →
    st.currentPathIndex ≤ st'.currentPathIndex ∧ ValidIndex request.fullPath st'.currentPathIndex
  refl _ h := ⟨le_rfl, h⟩
  trans h₁ h₂ h := ⟨(h₁ h).1.trans (h₂ (h₁ h).2).1, (h₂ (h₁ h).2).2⟩
  reset _ h := ⟨le_rfl, h⟩
  leaf l st input h := l.execute_cursor request st input h

/-- **The cursor stays valid.**  From a valid cursor `i`, every filter hands back a
valid cursor `j` with `i ≤ j ≤ |full_path|`, and every sub-filter of it is run from a
valid cursor, which is a char boundary, so no `current_path` or `previous_path` slice
taken during the run panics. -/
theorem cursor_valid :
    (∀ (f : Filter) (st : RequestState) (input : Tuple),
      ValidIndex request.fullPath st.currentPathIndex →
      st.currentPathIndex ≤ (f.execute request st input).requestState.currentPathIndex ∧
        ValidIndex request.fullPath (f.execute request st input).requestState.currentPathIndex) ∧
    (∀ (ctx : Context) (hole : Filter) (st st' : RequestState) (input input' : Tuple),
      ValidIndex request.fullPath st.currentPathIndex →
      ctx.reach request hole st input = some (st', input') →
      ValidIndex request.fullPath st'.currentPathIndex ∧
        isCharBoundary request.fullPath st'.currentPathIndex = true) :=
  ⟨fun f st input h => (cursorRel request).execute f st input h,
    fun ctx hole _ _ _ _ h hreach =>
      have valid := ((cursorRel request).reach ctx hole hreach h).2
      ⟨valid, valid.isCharBoundary⟩⟩

/-- `param_str().and(end())` on `/é/`: the segment ends before the two-byte `é`'s
successor `/`, and `end()` runs from cursor 3. -/
theorem cursor_valid_utf8 :
    let request : Request := ⟨.get, [47, 0xC3, 0xA9, 47], []⟩
    let f := Filter.and (.leaf .paramStr) (.leaf .pathEnd)
    ValidIndex request.fullPath 0 ∧
      ((RequestState.new []).currentPathIndex ≤
          (f.execute request (.new []) []).requestState.currentPathIndex ∧
        ValidIndex request.fullPath (f.execute request (.new []) []).requestState.currentPathIndex) ∧
      Context.reach request [Frame.andSecond (.leaf .paramStr)] (.leaf .pathEnd) (.new []) [] =
          some (⟨.pending [] [] 0, 3⟩, []) ∧
        (ValidIndex request.fullPath 3 ∧ isCharBoundary request.fullPath 3 = true) := by
  intro request f
  have h0 : ValidIndex request.fullPath 0 := by decide
  exact ⟨h0, (cursor_valid request).1 f (.new []) [] h0, rfl,
    (cursor_valid request).2 [Frame.andSecond (.leaf .paramStr)] (.leaf .pathEnd) (.new [])
      ⟨.pending [] [] 0, 3⟩ [] [] h0 rfl⟩

end Myth
