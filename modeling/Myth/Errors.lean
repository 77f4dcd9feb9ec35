import Myth.Http
import Myth.Body

/-!
# Boxed errors and their recovery: `errors.rs`

A `BoxedFilterError` is a `Box<dyn FilterError>`, recovered only by its exact
runtime type.  The model is the closed union of the library's error types with
one more case for any other `FilterError`, named by its type; `typeId` is what
`Any::type_id` compares.  `Recoverable` is the error type a recovery function
asks for: one error type, or `BoxedFilterError` itself, which takes every error.

    recover_of_matches     : a matching recovery receives the same error
    recover_of_not_matches : any other gives the same error back
-/

namespace Myth

/-- The body-format errors `json::Error` and `form::urlencoded::Error` share. -/
inductive BodyFormatError where
  | noContentType
  | wrongContentType (value : HeaderValue)
  | reading (error : BodyError)
  | deserializing (message : String)
  deriving DecidableEq, Repr

/-- The runtime type of a boxed error. -/
inductive TypeId where
  | redirect | forwardParam | headerMissing | body | contentLength | invalidIfUnmodifiedSince
  | json | urlencoded
  | other (typeName : String)
  deriving DecidableEq, Repr

/-- `BoxedFilterError`: the library's error types, and any other `FilterError`. -/
inductive BoxedFilterError where
  /-- `path::Redirect`. -/
  | redirect (location : List UInt8)
  /-- `ForwardParam`, private to `path::param`. -/
  | forwardParam
  /-- `HeaderMissing`, private to `header::value`. -/
  | headerMissing
  /-- `body::Error`. -/
  | body (error : BodyError)
  /-- `body::ContentLengthError`. -/
  | contentLength (length : Nat)
  /-- `InvalidIfUnmodifiedSince`, private to `cache`. -/
  | invalidIfUnmodifiedSince (value : HeaderValue)
  /-- `json::Error`. -/
  | json (error : BodyFormatError)
  /-- `form::urlencoded::Error`. -/
  | urlencoded (error : BodyFormatError)
  /-- Any other `FilterError`, of the type named `typeName`. -/
  | other (typeName : String) (message : String)
  deriving DecidableEq, Repr

/-- `Any::type_id` of the boxed error. -/
def BoxedFilterError.typeId : BoxedFilterError → TypeId
  | .redirect _ => .redirect
  | .forwardParam => .forwardParam
  | .headerMissing => .headerMissing
  | .body _ => .body
  | .contentLength _ => .contentLength
  | .invalidIfUnmodifiedSince _ => .invalidIfUnmodifiedSince
  | .json _ => .json
  | .urlencoded _ => .urlencoded
  | .other typeName _ => .other typeName

/-- The error type `E` of a `recover`/`recover_forward` function. -/
inductive Recoverable where
  /-- `E = BoxedFilterError`. -/
  | boxed
  /-- `E` a `FilterError` type. -/
  | error (typeId : TypeId)
  deriving DecidableEq, Repr

namespace Recoverable

/-- Whether `E::recover` succeeds on `error`. -/
def Matches (E : Recoverable) (error : BoxedFilterError) : Prop :=
  match E with
  | boxed => True
  | Recoverable.error typeId => error.typeId = typeId

instance (E : Recoverable) (error : BoxedFilterError) : Decidable (E.Matches error) :=
  match E with
  | boxed => isTrue trivial
  | Recoverable.error typeId => inferInstanceAs (Decidable (error.typeId = typeId))

/-- `RecoverableSealed::recover`: `dyn FilterError::downcast` for an error type, the
identity for `BoxedFilterError`.  The recovered value is the boxed error itself. -/
def recover (E : Recoverable) (error : BoxedFilterError) : Except BoxedFilterError BoxedFilterError :=
  match E with
  | boxed => .ok error
  | Recoverable.error typeId => if error.typeId = typeId then .ok error else .error error

theorem recover_of_matches {E : Recoverable} {error : BoxedFilterError} (h : E.Matches error) :
    E.recover error = .ok error := by
  cases E <;> simp_all [recover, Matches]

theorem recover_of_not_matches {E : Recoverable} {error : BoxedFilterError} (h : ¬E.Matches error) :
    E.recover error = .error error := by
  cases E <;> simp_all [recover, Matches]

end Recoverable

end Myth
