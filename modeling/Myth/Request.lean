import Myth.Http
import Myth.Body

/-!
# Per-request state: `RequestState` (`request.rs`)

The state a request's filters thread through: the body's progress and the path
cursor `current_path_index`, a byte offset into `full_path()`.  `current_path` and
`previous_path` slice the path at the cursor; in the code a slice panics unless the
offset is a char boundary, which `isCharBoundary` decides as `str::is_char_boundary`
does.  `ValidIndex` is the shape the path filters keep the cursor in: the start, the
end, or a `/`.
-/

namespace Myth

/-- `RequestState`; the pending-upgrade handle is left out, no modelled filter takes it. -/
structure RequestState where
  body : BodyState
  currentPathIndex : Nat

namespace RequestState

/-- `RequestState::new`, for a body stream. -/
def new (stream : List BodyEvent) : RequestState := ⟨.pending stream [] 0, 0⟩

/-- `RequestState::current_path`. -/
def currentPath (st : RequestState) (request : Request) : List UInt8 :=
  request.fullPath.drop st.currentPathIndex

/-- `RequestState::previous_path`. -/
def previousPath (st : RequestState) (request : Request) : List UInt8 :=
  request.fullPath.take st.currentPathIndex

/-- `RequestState::incr_current_path_index`. -/
def incrCurrentPathIndex (st : RequestState) (index : Nat) : RequestState :=
  { st with currentPathIndex := st.currentPathIndex + index }

/-- `RequestState::end_current_path_index`. -/
def endCurrentPathIndex (st : RequestState) (request : Request) : RequestState :=
  { st with currentPathIndex := request.fullPath.length }

/-- The cursor set back to `index`, as `or()` and `recover()` do. -/
def setPathIndex (st : RequestState) (index : Nat) : RequestState :=
  { st with currentPathIndex := index }

/-- `RequestState::poll_body`. -/
def pollBody (st : RequestState) : RequestState × BodyPoll :=
  ({ st with body := st.body.pollBody.1 }, st.body.pollBody.2)

@[simp] theorem setPathIndex_currentPathIndex (st : RequestState) (index : Nat) :
    (st.setPathIndex index).currentPathIndex = index := rfl

@[simp] theorem setPathIndex_body (st : RequestState) (index : Nat) :
    (st.setPathIndex index).body = st.body := rfl

@[simp] theorem setPathIndex_setPathIndex (st : RequestState) (i j : Nat) :
    (st.setPathIndex i).setPathIndex j = st.setPathIndex j := rfl

@[simp] theorem setPathIndex_self (st : RequestState) :
    st.setPathIndex st.currentPathIndex = st := rfl

@[simp] theorem incrCurrentPathIndex_body (st : RequestState) (index : Nat) :
    (st.incrCurrentPathIndex index).body = st.body := rfl

@[simp] theorem endCurrentPathIndex_body (st : RequestState) (request : Request) :
    (st.endCurrentPathIndex request).body = st.body := rfl

end RequestState

/-- `str::is_char_boundary` on the bytes of a `&str`. -/
def isCharBoundary (s : List UInt8) (index : Nat) : Bool :=
  index = 0 || match s[index]? with
    | none => index = s.length
    | some b => b < 0x80 || 0xC0 ≤ b

/-- The cursor positions the path filters keep: the start, the end, or a `/`. -/
def ValidIndex (path : List UInt8) (index : Nat) : Prop :=
  index ≤ path.length ∧ (index = 0 ∨ index = path.length ∨ path[index]? = some 47)

instance (path : List UInt8) (index : Nat) : Decidable (ValidIndex path index) :=
  inferInstanceAs (Decidable (_ ∧ _))

/-- A valid cursor is a char boundary, so slicing there cannot panic. -/
theorem ValidIndex.isCharBoundary {path : List UInt8} {index : Nat} (h : ValidIndex path index) :
    isCharBoundary path index = true := by
  obtain ⟨hle, h0 | hend | hslash⟩ := h
  · simp [Myth.isCharBoundary, h0]
  · subst hend; simp [Myth.isCharBoundary]
  · simp [Myth.isCharBoundary, hslash]

end Myth
