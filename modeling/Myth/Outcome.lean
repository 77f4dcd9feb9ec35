import Myth.Forward
import Myth.Request
import Myth.Errors

/-!
# Values and outcomes: `outcome.rs`

The elements of the code's tuples are kept as `Val`s, one case per kind of value the
modelled filters produce, plus `tuple` for a tuple held as one value (what
`untuple()` flattens).  A filter's `Input` and `Success` tuples are lists of values.

`Outcome` is the three-way result of a filter, and `RequestOutcome` pairs it with
the request state handed back.
-/

namespace Myth

/-- An element of a tuple passed between filters. -/
inductive Val where
  /-- `&str`, `Cow<str>` or `String`. -/
  | str (s : String)
  /-- A number, such as a parsed `i32`. -/
  | int (n : Int)
  /-- `PathBuf`, by its components. -/
  | pathBuf (components : List String)
  /-- `&HeaderValue`. -/
  | headerValue (value : HeaderValue)
  /-- `Option<T>`. -/
  | option (value : Option Val)
  /-- `&Method`. -/
  | method (m : Method)
  /-- `Mime`. -/
  | mime (m : Mime)
  /-- `BytesBuf`. -/
  | bytesBuf (buf : BytesBuf)
  /-- `Response`. -/
  | response (r : Response)
  /-- `SystemTime`, as whole seconds since `UNIX_EPOCH`; a time before it is not represented. -/
  | systemTime (t : Nat)
  /-- A tuple held as one value. -/
  | tuple (elems : List Val)

/-- A tuple of values. -/
abbrev Tuple := List Val

/-- `Tuple::into_inner` of a one-tuple holding a tuple. -/
def Tuple.intoInner : Tuple → Tuple
  | [.tuple elems] => elems
  | t => t

/-- `Outcome`. -/
inductive Outcome (C S : Type) where
  | success (success : S)
  | error (error : BoxedFilterError)
  | forward (input : C) (forwarding : Forwarding)

namespace Outcome

variable {C S C₁ S₁ : Type}

/-- `Outcome::map`. -/
def map (func : S → S₁) : Outcome C S → Outcome C S₁
  | success s => success (func s)
  | error e => error e
  | forward input forwarding => forward input forwarding

/-- `Outcome::map_input`. -/
def mapInput (func : C → C₁) : Outcome C S → Outcome C₁ S
  | success s => success s
  | error e => error e
  | forward input forwarding => forward (func input) forwarding

theorem map_eq_success {func : S → S₁} {o : Outcome C S} {s : S₁} :
    o.map func = success s ↔ ∃ s', o = success s' ∧ func s' = s := by
  cases o <;> simp [map]

theorem map_eq_error {func : S → S₁} {o : Outcome C S} {e : BoxedFilterError} :
    o.map func = error e ↔ o = error e := by
  cases o <;> simp [map]

theorem map_eq_forward {func : S → S₁} {o : Outcome C S} {input : C} {forwarding : Forwarding} :
    o.map func = forward input forwarding ↔ o = forward input forwarding := by
  cases o <;> simp [map]

theorem mapInput_eq_error {func : C → C₁} {o : Outcome C S} {e : BoxedFilterError} :
    o.mapInput func = error e ↔ o = error e := by
  cases o <;> simp [mapInput]

/-- Whether the outcome is a success. -/
def isSuccess : Outcome C S → Bool
  | success _ => true
  | _ => false

/-- `From<Result<S, BoxedFilterError>>`. -/
def ofResult : Except BoxedFilterError S → Outcome C S
  | .ok s => success s
  | .error e => error e

theorem ofResult_map_eq_success {T : Type} {func : T → S} {r : Except BoxedFilterError T} {s : S} :
    (ofResult (r.map func) : Outcome C S) = success s ↔ ∃ t, r = .ok t ∧ func t = s := by
  cases r <;> simp [ofResult, Except.map]

theorem ofResult_map_eq_error {T : Type} {func : T → S} {r : Except BoxedFilterError T}
    {e : BoxedFilterError} : (ofResult (r.map func) : Outcome C S) = error e ↔ r = .error e := by
  cases r <;> simp [ofResult, Except.map]

end Outcome

/-- `RequestOutcome`. -/
structure RequestOutcome (C S : Type) where
  requestState : RequestState
  outcome : Outcome C S

namespace RequestOutcome

variable {C S C₁ S₁ : Type}

/-- `RequestOutcome::map`. -/
def map (func : S → S₁) (r : RequestOutcome C S) : RequestOutcome C S₁ :=
  ⟨r.requestState, r.outcome.map func⟩

/-- `RequestOutcome::map_input`. -/
def mapInput (func : C → C₁) (r : RequestOutcome C S) : RequestOutcome C₁ S :=
  ⟨r.requestState, r.outcome.mapInput func⟩

@[simp] theorem map_requestState (func : S → S₁) (r : RequestOutcome C S) :
    (r.map func).requestState = r.requestState := rfl

@[simp] theorem mapInput_requestState (func : C → C₁) (r : RequestOutcome C S) :
    (r.mapInput func).requestState = r.requestState := rfl

end RequestOutcome

end Myth
