import Myth.Http

/-!
# Forwarding reasons: `forward.rs`

`Forwarding` says why a filter did not match.  `combine` joins the reasons of two
alternatives: `NotFound` is its identity and two `MethodNotAllowed` sets are joined
by the bitwise or of their `u16` masks, so `combine` is a commutative monoid.

    combine_assoc, notFound_combine, combine_notFound, combine_comm
    foldl_combine_notFound : folding `combine` over reasons gives `NotFound` when
      none of them is `MethodNotAllowed`, and else the union of the attempted sets
-/

namespace Myth

/-- `AttemptedMethods`: a `u16` mask with one bit per standard method. -/
structure AttemptedMethods where
  bits : BitVec 16
  deriving DecidableEq, Repr

namespace AttemptedMethods

def NONE : AttemptedMethods := ⟨0⟩

instance : OrOp AttemptedMethods := ⟨fun a b => ⟨a.bits ||| b.bits⟩⟩

instance : AndOp AttemptedMethods := ⟨fun a b => ⟨a.bits &&& b.bits⟩⟩

theorem ext {a b : AttemptedMethods} (h : a.bits = b.bits) : a = b := by
  cases a; cases b; cases h; rfl

@[simp] theorem bits_or (a b : AttemptedMethods) : (a ||| b).bits = a.bits ||| b.bits := rfl

theorem or_assoc (a b c : AttemptedMethods) : a ||| b ||| c = a ||| (b ||| c) :=
  ext (by simp only [bits_or, BitVec.or_assoc])

theorem or_comm (a b : AttemptedMethods) : a ||| b = b ||| a :=
  ext (by simp only [bits_or, BitVec.or_comm])

@[simp] theorem NONE_or (a : AttemptedMethods) : NONE ||| a = a :=
  ext (by simp [NONE])

@[simp] theorem or_NONE (a : AttemptedMethods) : a ||| NONE = a :=
  ext (by simp [NONE])

/-- The constant of `define_method`'s method: bit `i` for the `i`-th standard method. -/
def ofMethod : Method → AttemptedMethods
  | .get => ⟨1 <<< 0⟩
  | .post => ⟨1 <<< 1⟩
  | .put => ⟨1 <<< 2⟩
  | .delete => ⟨1 <<< 3⟩
  | .head => ⟨1 <<< 4⟩
  | .options => ⟨1 <<< 5⟩
  | .connect => ⟨1 <<< 6⟩
  | .patch => ⟨1 <<< 7⟩
  | .trace => ⟨1 <<< 8⟩
  | .extension _ => NONE

end AttemptedMethods

/-- `Forwarding`: why a filter forwarded. -/
inductive Forwarding where
  | notFound
  | methodNotAllowed (attempted : AttemptedMethods)
  deriving DecidableEq, Repr

namespace Forwarding

/-- `Forwarding::combine`. -/
def combine : Forwarding → Forwarding → Forwarding
  | notFound, other => other
  | methodNotAllowed attempted, notFound => methodNotAllowed attempted
  | methodNotAllowed attempted, methodNotAllowed other => methodNotAllowed (attempted ||| other)

/-- The attempted methods a reason records; `NotFound` records none. -/
def attempted : Forwarding → AttemptedMethods
  | notFound => .NONE
  | methodNotAllowed attempted => attempted

@[simp] theorem notFound_combine (r : Forwarding) : notFound.combine r = r := rfl

@[simp] theorem combine_notFound (r : Forwarding) : r.combine notFound = r := by
  cases r <;> rfl

theorem combine_assoc (a b c : Forwarding) : (a.combine b).combine c = a.combine (b.combine c) := by
  cases a <;> cases b <;> cases c <;> simp only [combine, AttemptedMethods.or_assoc]

theorem combine_comm (a b : Forwarding) : a.combine b = b.combine a := by
  cases a <;> cases b <;> simp only [combine, AttemptedMethods.or_comm]

/-- Combining from an accumulator: `NotFound` stays only while every reason is `NotFound`. -/
theorem foldl_combine (rs : List Forwarding) (acc : Forwarding) :
    rs.foldl combine acc =
      if acc = notFound ∧ ∀ r ∈ rs, r = notFound then notFound
      else methodNotAllowed (rs.foldl (fun m r => m ||| r.attempted) acc.attempted) := by
  induction rs generalizing acc with
  | nil => cases acc <;> simp [attempted]
  | cons r rs ih =>
    rw [List.foldl_cons, ih, List.foldl_cons]
    cases acc <;> cases r <;> simp [combine, attempted]

/-- `combine` over the reasons of several alternatives, as `or()` chains apply it. -/
theorem foldl_combine_notFound (rs : List Forwarding) :
    rs.foldl combine notFound =
      if ∀ r ∈ rs, r = notFound then notFound
      else methodNotAllowed (rs.foldl (fun m r => m ||| r.attempted) .NONE) := by
  simp [foldl_combine, attempted]

end Forwarding

end Myth
