import Mathlib.Data.List.Basic
import Mathlib.Logic.Function.Iterate

/-!
# The request body: `RequestState::poll_body` and `BodyState` (`request.rs`)

The body stream is the list of what its successive `poll_data` calls return: a
chunk, an error, or `Pending`; the end of the list is `Ready(None)`.  `pollBody`
is one call of `poll_body`: in the `Pending` state it loops over the stream,
keeping non-empty chunks, until the stream is pending, fails or ends.

    pollBodyN k s : the state after k calls
    pollBody_pollBodyN : the result of call k, in closed form
    bodyInv_pollBodyN : every reachable state holds exactly the chunks delivered so far
-/

namespace Myth

/-- What one `poll_data` of the request body returns; the stream's end is the end of
the list. -/
inductive BodyEvent where
  | data (buf : List UInt8)
  | error (message : String)
  | pending
  deriving DecidableEq, Repr

/-- `BodyState`. -/
inductive BodyState where
  | pending (stream : List BodyEvent) (bytes : List (List UInt8)) (len : Nat)
  | finished (bytes : List (List UInt8)) (len : Nat)
  | error
  deriving DecidableEq, Repr

/-- `body::Error`: the stream's error the first time, `None` afterwards. -/
structure BodyError where
  inner : Option String
  deriving DecidableEq, Repr

/-- `BytesBuf` (`body.rs`): the chunks of a body still to be read, and their total length. -/
structure BytesBuf where
  bytes : List (List UInt8)
  len : Nat
  deriving DecidableEq, Repr

/-- `std::task::Poll`. -/
inductive Poll (α : Type) where
  | ready (a : α)
  | pending
  deriving DecidableEq, Repr

/-- What `poll_body` returns. -/
abbrev BodyPoll := Poll (Except BodyError (List (List UInt8) × Nat))

/-- The `loop` of `poll_body` in the `Pending` state. -/
def pollStream : List BodyEvent → List (List UInt8) → Nat → BodyState × BodyPoll
  | [], bytes, len => (.finished bytes len, .ready (.ok (bytes, len)))
  | .data buf :: stream, bytes, len =>
    if buf.isEmpty then pollStream stream bytes len
    else pollStream stream (bytes ++ [buf]) (len + buf.length)
  | .error message :: _, _, _ => (.error, .ready (.error ⟨some message⟩))
  | .pending :: stream, bytes, len => (.pending stream bytes len, .pending)

/-- `RequestState::poll_body`, on the body part of the state. -/
def BodyState.pollBody : BodyState → BodyState × BodyPoll
  | .pending stream bytes len => pollStream stream bytes len
  | .finished bytes len => (.finished bytes len, .ready (.ok (bytes, len)))
  | .error => (.error, .ready (.error ⟨none⟩))

/-- The state after `k` calls of `poll_body`. -/
def BodyState.pollBodyN (k : Nat) (s : BodyState) : BodyState :=
  (fun s => s.pollBody.1)^[k] s

/-- The stream polled until it is no longer pending, as the executor polls the
future of `body::all()` again after each `Pending`. -/
def awaitStream : List BodyEvent → List (List UInt8) → Nat →
    BodyState × Except BodyError (List (List UInt8) × Nat)
  | [], bytes, len => (.finished bytes len, .ok (bytes, len))
  | .data buf :: stream, bytes, len =>
    if buf.isEmpty then awaitStream stream bytes len
    else awaitStream stream (bytes ++ [buf]) (len + buf.length)
  | .error message :: _, _, _ => (.error, .error ⟨some message⟩)
  | .pending :: stream, bytes, len => awaitStream stream bytes len

/-- `poll_body` polled until ready. -/
def BodyState.awaitBody : BodyState → BodyState × Except BodyError (List (List UInt8) × Nat)
  | .pending stream bytes len => awaitStream stream bytes len
  | .finished bytes len => (.finished bytes len, .ok (bytes, len))
  | .error => (.error, .error ⟨none⟩)

/-! ## What a stream delivers -/

/-- The `Pending`s a stream returns before its first error or its end. -/
def pendingCount : List BodyEvent → Nat
  | [] => 0
  | .data _ :: stream => pendingCount stream
  | .error _ :: _ => 0
  | .pending :: stream => pendingCount stream + 1

/-- The stream's first error. -/
def firstError : List BodyEvent → Option String
  | [] => none
  | .data _ :: stream => firstError stream
  | .error message :: _ => some message
  | .pending :: stream => firstError stream

/-- The non-empty chunks a stream delivers before its first error. -/
def chunksOf : List BodyEvent → List (List UInt8)
  | [] => []
  | .data buf :: stream => if buf.isEmpty then chunksOf stream else buf :: chunksOf stream
  | .error _ :: _ => []
  | .pending :: stream => chunksOf stream

/-- Total length of some chunks. -/
def totalLen : List (List UInt8) → Nat
  | [] => 0
  | buf :: bytes => buf.length + totalLen bytes

@[simp] theorem totalLen_append (a b : List (List UInt8)) :
    totalLen (a ++ b) = totalLen a + totalLen b := by
  induction a with
  | nil => simp [totalLen]
  | cons buf a ih => simp [totalLen, ih, Nat.add_assoc]

@[simp] theorem totalLen_singleton (buf : List UInt8) : totalLen [buf] = buf.length := by
  simp [totalLen]

/-! ## Every schedule of calls -/

namespace BodyState

@[simp] theorem pollBodyN_zero (s : BodyState) : s.pollBodyN 0 = s := rfl

theorem pollBodyN_succ (k : Nat) (s : BodyState) :
    s.pollBodyN (k + 1) = s.pollBody.1.pollBodyN k :=
  Function.iterate_succ_apply _ k s

@[simp] theorem pollBodyN_finished (k : Nat) (bytes : List (List UInt8)) (len : Nat) :
    (finished bytes len).pollBodyN k = finished bytes len := by
  induction k with
  | zero => rfl
  | succ k ih => rw [pollBodyN_succ]; exact ih

@[simp] theorem pollBodyN_error (k : Nat) : error.pollBodyN k = error := by
  induction k with
  | zero => rfl
  | succ k ih => rw [pollBodyN_succ]; exact ih

/-- States whose next call agrees agree on every later call. -/
theorem pollBody_pollBodyN_congr {s t : BodyState} (h : s.pollBody = t.pollBody) (k : Nat) :
    (s.pollBodyN k).pollBody = (t.pollBodyN k).pollBody := by
  cases k with
  | zero => exact h
  | succ k => rw [pollBodyN_succ, pollBodyN_succ, h]

/-- The result of call `k` on a stream, in closed form: `Pending` until the stream's
`Pending`s are used up, then its first error (with the stream's error only the first
time), or else every chunk. -/
theorem pollBody_pollBodyN (stream : List BodyEvent) (bytes : List (List UInt8)) (len k : Nat) :
    ((pending stream bytes len).pollBodyN k).pollBody.2 =
      if k < pendingCount stream then .pending
      else match firstError stream with
        | some message => .ready (.error ⟨if k = pendingCount stream then some message else none⟩)
        | none => .ready (.ok (bytes ++ chunksOf stream, len + totalLen (chunksOf stream))) := by
  induction stream generalizing bytes len k with
  | nil =>
    cases k with
    | zero => simp [pollBody, pollStream, pendingCount, firstError, chunksOf, totalLen]
    | succ k => simp [pollBodyN_succ, pollBody, pollStream, pendingCount, firstError, chunksOf,
        totalLen]
  | cons event stream ih =>
    cases event with
    | data buf =>
      by_cases hb : buf.isEmpty
      · rw [@pollBody_pollBodyN_congr _ (pending stream bytes len) (by simp [pollBody,
          pollStream, hb]), ih]
        simp [pendingCount, firstError, chunksOf, hb]
      · rw [@pollBody_pollBodyN_congr _ (pending stream (bytes ++ [buf]) (len + buf.length))
          (by simp [pollBody, pollStream, hb]), ih]
        simp [pendingCount, firstError, chunksOf, hb, Nat.add_assoc, totalLen]
    | error message =>
      cases k with
      | zero => simp [pollBody, pollStream, pendingCount, firstError]
      | succ k => simp [pollBodyN_succ, pollBody, pollStream, pendingCount, firstError]
    | pending =>
      cases k with
      | zero => simp [pollBody, pollStream, pendingCount]
      | succ k =>
        have h : (pending (.pending :: stream) bytes len).pollBody.1 = pending stream bytes len :=
          rfl
        rw [pollBodyN_succ, h, ih]
        simp [pendingCount, firstError, chunksOf]

/-! ## The chunks a state holds -/

/-- What a body state holds, for a request whose body stream is `events`: while
pending, exactly the non-empty chunks of the events delivered so far and their total
length; once finished, those of the whole stream; and an error only if the stream has
one. -/
def BodyInv (events : List BodyEvent) : BodyState → Prop
  | pending stream bytes len => ∃ consumed, events = consumed ++ stream ∧
      firstError consumed = none ∧ bytes = chunksOf consumed ∧ len = totalLen bytes
  | finished bytes len => firstError events = none ∧ bytes = chunksOf events ∧
      len = totalLen bytes
  | error => firstError events ≠ none

theorem bodyInv_init (events : List BodyEvent) : BodyInv events (pending events [] 0) :=
  ⟨[], rfl, rfl, rfl, rfl⟩

theorem firstError_append {consumed : List BodyEvent} (h : firstError consumed = none)
    (stream : List BodyEvent) : firstError (consumed ++ stream) = firstError stream := by
  induction consumed with
  | nil => rfl
  | cons event consumed ih => cases event <;> simp_all [firstError]

theorem chunksOf_append {consumed : List BodyEvent} (h : firstError consumed = none)
    (stream : List BodyEvent) : chunksOf (consumed ++ stream) = chunksOf consumed ++ chunksOf stream := by
  induction consumed with
  | nil => rfl
  | cons event consumed ih =>
    cases event with
    | data buf => by_cases hb : buf.isEmpty <;> simp_all [firstError, chunksOf]
    | error message => simp [firstError] at h
    | pending => simp_all [firstError, chunksOf]

/-- Delivering one more event keeps the pending invariant. -/
theorem bodyInv_pending_snoc {events consumed stream : List BodyEvent} {event : BodyEvent}
    (he : events = consumed ++ event :: stream) (hc : firstError consumed = none)
    (hev : firstError [event] = none) :
    events = (consumed ++ [event]) ++ stream ∧ firstError (consumed ++ [event]) = none ∧
      chunksOf (consumed ++ [event]) = chunksOf consumed ++ chunksOf [event] := by
  refine ⟨by simp [he], by rw [firstError_append hc, hev], chunksOf_append hc _⟩

theorem bodyInv_pollStream (events stream : List BodyEvent) (bytes : List (List UInt8))
    (len : Nat) (h : BodyInv events (pending stream bytes len)) :
    BodyInv events (pollStream stream bytes len).1 := by
  induction stream generalizing bytes len with
  | nil =>
    obtain ⟨consumed, he, hc, hb, hl⟩ := h
    simp only [List.append_nil] at he
    subst he
    exact ⟨hc, hb, hl⟩
  | cons event stream ih =>
    obtain ⟨consumed, he, hc, hb, hl⟩ := h
    cases event with
    | data buf =>
      obtain ⟨he', hc', hb'⟩ := bodyInv_pending_snoc he hc rfl
      by_cases hbuf : buf.isEmpty
      · simp only [pollStream, hbuf, if_true]
        exact ih _ _ ⟨_, he', hc', by simp [hb', hb, chunksOf, hbuf], hl⟩
      · simp only [pollStream, hbuf]
        exact ih _ _ ⟨_, he', hc', by simp [hb', hb, chunksOf, hbuf], by simp [hl]⟩
    | error message =>
      show firstError events ≠ none
      rw [he, firstError_append hc]
      simp [firstError]
    | pending =>
      obtain ⟨he', hc', hb'⟩ := bodyInv_pending_snoc he hc rfl
      exact ⟨_, he', hc', by simp [hb', hb, chunksOf], hl⟩

theorem bodyInv_pollBody {events : List BodyEvent} {s : BodyState} (h : BodyInv events s) :
    BodyInv events s.pollBody.1 := by
  cases s with
  | pending stream bytes len => exact bodyInv_pollStream events stream bytes len h
  | finished bytes len => exact h
  | error => exact h

/-- Every state reachable by calls of `poll_body` keeps the invariant. -/
theorem bodyInv_pollBodyN {events : List BodyEvent} {s : BodyState} (h : BodyInv events s)
    (k : Nat) : BodyInv events (s.pollBodyN k) := by
  induction k generalizing s with
  | zero => exact h
  | succ k ih => rw [pollBodyN_succ]; exact ih (bodyInv_pollBody h)

/-! ## Polling until ready -/

/-- The calls of `poll_body` that return `Pending` before it is ready. -/
def pendingCalls : BodyState → Nat
  | pending stream _ _ => pendingCount stream
  | _ => 0

/-- `awaitBody` is the first call of `poll_body` that does not return `Pending`. -/
theorem awaitBody_eq (s : BodyState) :
    (s.pollBodyN s.pendingCalls).pollBody = (s.awaitBody.1, .ready s.awaitBody.2) := by
  cases s with
  | finished bytes len => rfl
  | error => rfl
  | pending stream bytes len =>
    simp only [pendingCalls, awaitBody]
    induction stream generalizing bytes len with
    | nil => rfl
    | cons event stream ih =>
      cases event with
      | data buf =>
        by_cases hb : buf.isEmpty
        · rw [@pollBody_pollBodyN_congr _ (pending stream bytes len) (by simp [pollBody,
            pollStream, hb])]
          simpa [pendingCount, awaitStream, hb] using ih bytes len
        · rw [@pollBody_pollBodyN_congr _ (pending stream (bytes ++ [buf]) (len + buf.length))
            (by simp [pollBody, pollStream, hb])]
          simpa [pendingCount, awaitStream, hb] using ih _ _
      | error message => rfl
      | pending => exact ih bytes len

/-- `poll_body` awaited on a pending body, in closed form: the stream's first error, or
else every chunk after those already held. -/
theorem awaitBody_pending (stream : List BodyEvent) (bytes : List (List UInt8)) (len : Nat) :
    (pending stream bytes len).awaitBody.2 =
      match firstError stream with
      | some message => .error ⟨some message⟩
      | none => .ok (bytes ++ chunksOf stream, len + totalLen (chunksOf stream)) := by
  have h := congrArg Prod.snd (awaitBody_eq (pending stream bytes len))
  rw [pollBody_pollBodyN] at h
  simp only [pendingCalls, lt_irrefl, if_false] at h
  split at h <;> simp_all

theorem bodyInv_awaitBody {events : List BodyEvent} {s : BodyState} (h : BodyInv events s) :
    BodyInv events s.awaitBody.1 := by
  have hs := congrArg Prod.fst (awaitBody_eq s)
  rw [← hs]
  exact bodyInv_pollBody (bodyInv_pollBodyN h _)

/-- A body that keeps the invariant, awaited: every non-empty chunk of the stream and
their total length when the stream has no error, and an error otherwise. -/
theorem awaitBody_of_bodyInv {events : List BodyEvent} {s : BodyState} (h : BodyInv events s) :
    (firstError events = none → s.awaitBody.2 = .ok (chunksOf events, totalLen (chunksOf events))) ∧
    (firstError events ≠ none → ∃ error, s.awaitBody.2 = .error error) := by
  cases s with
  | pending stream bytes len =>
    obtain ⟨consumed, rfl, hc, rfl, rfl⟩ := h
    rw [awaitBody_pending, firstError_append hc, chunksOf_append hc, totalLen_append]
    cases firstError stream with
    | none => exact ⟨fun _ => rfl, fun h => absurd rfl h⟩
    | some message => exact ⟨fun h => (nomatch h), fun _ => ⟨_, rfl⟩⟩
  | finished bytes len =>
    obtain ⟨hnone, rfl, rfl⟩ := h
    exact ⟨fun _ => rfl, fun h => absurd hnone h⟩
  | error => exact ⟨fun hnone => absurd hnone h, fun _ => ⟨_, rfl⟩⟩

end BodyState

end Myth
