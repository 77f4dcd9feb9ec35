import Myth.BytesBuf
import Myth.Run

/-!
# The body across a whole request (`request.rs`, `body.rs`)

`body::all()` is the one leaf that touches the body: `TakeBodyFuture` polls
`poll_body` until it is ready, and every other leaf hands the body on as it found
it.  So `BodyInv`, which every call of `poll_body` keeps, holds of the body at every
point of every run of a request (`bodyRel`, a `StateRel`), and every `body::all()`
of the request, however many `or()` branches run one, sees the whole stream: it yields
the whole body when the stream has no error, and a body error otherwise.  The
`BytesBuf` it hands on then holds the invariant of `Buf`, so the codecs that read it
read exactly the body.

    bodyRel           : a run keeps `BodyInv events` of the body
    takeBody_outcome  : what every `body::all()` reached from a fresh state returns
    takeBody_readEach : every run of reads on the body `body::all()` hands on
-/

namespace Myth

open BodyState

variable (request : Request) (events : List BodyEvent)

/-- Every leaf keeps the body invariant: `body::all()` by polling, the others by not
touching the body. -/
theorem Leaf.execute_bodyInv (l : Leaf) (st : RequestState) (input : Tuple)
    (h : BodyInv events st.body) : BodyInv events (l.execute request st input).requestState.body := by
  rcases l.execute_requestState request st input with hst | ⟨_, _, _, hst⟩ | hst | hst <;> rw [hst]
  · exact h
  · exact h
  · exact h
  · exact bodyInv_awaitBody h

/-- Runs keep the body invariant of a request whose body stream is `events`. -/
def bodyRel : StateRel request where
  rel st st' := BodyInv events st.body → BodyInv events st'.body
  refl _ h := h
  trans h₁ h₂ h := h₂ (h₁ h)
  reset h := h
  leaf l st input h := l.execute_bodyInv request events st input h

/-- Every `body::all()` reached anywhere in a request from a fresh state yields every
chunk of the stream and their total length when the stream has no error, and a body
error otherwise. -/
theorem takeBody_outcome {ctx : Context} {input input' : Tuple} {st : RequestState}
    (hr : ctx.reach request (.leaf .takeBody) (.new events) input = some (st, input')) :
    (firstError events = none → ((Filter.leaf .takeBody).execute request st input').outcome =
      .success [.bytesBuf ⟨chunksOf events, totalLen (chunksOf events)⟩]) ∧
    (firstError events ≠ none →
      ∃ error, ((Filter.leaf .takeBody).execute request st input').outcome = .error (.body error)) := by
  have hinv : BodyInv events st.body := (bodyRel request events).reach ctx _ hr (bodyInv_init events)
  obtain ⟨hok, herr⟩ := awaitBody_of_bodyInv hinv
  simp only [Filter.execute, Leaf.execute]
  exact ⟨fun hnone => by rw [hok hnone], fun hsome => (herr hsome).imp fun _ he => by rw [he]⟩

/-- A `body::all()` reached anywhere in a request from a fresh state, when it
succeeds, holds the chunks the stream delivered and their total length. -/
theorem takeBody_buf {ctx : Context} {input input' : Tuple} {st : RequestState} {buf : BytesBuf}
    (hr : ctx.reach request (.leaf .takeBody) (.new events) input = some (st, input'))
    (hs : ((Filter.leaf .takeBody).execute request st input').outcome = .success [.bytesBuf buf]) :
    buf.bytes = chunksOf events ∧ buf.len = totalLen buf.bytes := by
  obtain ⟨hok, herr⟩ := takeBody_outcome request events hr
  by_cases hnone : firstError events = none
  · cases hs.symm.trans (hok hnone)
    exact ⟨rfl, rfl⟩
  · obtain ⟨error, he⟩ := herr hnone
    cases hs.symm.trans he

/-- **The body state machine.**  For every stream: every state reached by calls of
`poll_body` holds exactly the non-empty chunks delivered so far and their total
length; call `k` is pending until the stream's `Pending`s are used up, and then
returns every chunk if the stream ends without error, or else an error (the
stream's own the first time); a finished state stays finished with the same chunks,
the stream no longer polled.  Consequently every `body::all()` run anywhere in a
request, from a fresh state, yields the whole stream's chunks and their total length
when the stream has no error, and fails with a body error otherwise. -/
theorem body_poll_schedule :
    (∀ k, BodyInv events ((pending events [] 0).pollBodyN k)) ∧
    (∀ k, ((pending events [] 0).pollBodyN k).pollBody.2 =
      if k < pendingCount events then .pending
      else match firstError events with
        | some message => .ready (.error ⟨if k = pendingCount events then some message else none⟩)
        | none => .ready (.ok (chunksOf events, totalLen (chunksOf events)))) ∧
    (∀ k bytes len, (finished bytes len).pollBodyN k = finished bytes len ∧
      (finished bytes len).pollBody.2 = .ready (.ok (bytes, len))) ∧
    (∀ (ctx : Context) (input input' : Tuple) (st : RequestState),
      ctx.reach request (.leaf .takeBody) (.new events) input = some (st, input') →
      (firstError events = none → ((Filter.leaf .takeBody).execute request st input').outcome =
        .success [.bytesBuf ⟨chunksOf events, totalLen (chunksOf events)⟩]) ∧
      (firstError events ≠ none →
        ∃ error, ((Filter.leaf .takeBody).execute request st input').outcome = .error (.body error))) := by
  refine ⟨bodyInv_pollBodyN (bodyInv_init events), fun k => ?_, fun k bytes len =>
    ⟨pollBodyN_finished k bytes len, rfl⟩, fun ctx input input' st hr => takeBody_outcome request events hr⟩
  simpa using pollBody_pollBodyN events [] 0 k

/-- A stream of two chunks around a `Pending`, read by `body::all()` as the second
branch of an `or()`. -/
theorem body_poll_schedule_two_chunks :
    let events := [BodyEvent.data [104, 105], .pending, .data [], .data [33]]
    let request : Request := ⟨.post, [47], []⟩
    let ctx : Context := [.orSecond (.leaf .never)]
    ctx.reach request (.leaf .takeBody) (.new events) [] = some (.new events, []) ∧
      firstError events = none ∧
      ((Filter.leaf .takeBody).execute request (.new events) []).outcome =
        .success [.bytesBuf ⟨chunksOf events, totalLen (chunksOf events)⟩] ∧
      chunksOf events = [[104, 105], [33]] := by
  intro events request ctx
  exact ⟨rfl, rfl, ((body_poll_schedule request events).2.2.2 ctx [] [] (.new events) rfl).1 rfl, rfl⟩

/-! ## Reading the body -/

/-- **What the codecs read.**  The `BytesBuf` that a `body::all()` anywhere in a request
hands on keeps the invariant of `Buf`, so every run of `Read::read` calls on it, with
fuel for its bytes and chunks, is `readsFlat` over the bytes the stream delivered, and
writes the first of them in order. -/
theorem takeBody_readEach {ctx : Context} {input input' : Tuple} {st : RequestState}
    {buf : BytesBuf} (hr : ctx.reach request (.leaf .takeBody) (.new events) input = some (st, input'))
    (hs : ((Filter.leaf .takeBody).execute request st input').outcome = .success [.bytesBuf buf])
    (fuel : Nat) (hf : buf.len + buf.bytes.length ≤ fuel) (bufs : List (List UInt8)) :
    ∃ final, buf.readEach fuel bufs = some (.ok (final, readsFlat (chunksOf events).flatten bufs)) ∧
      written (readsFlat (chunksOf events).flatten bufs) =
        (chunksOf events).flatten.take (readCount (readsFlat (chunksOf events).flatten bufs)) := by
  obtain ⟨hbytes, hvalid⟩ := takeBody_buf request events hr hs
  obtain ⟨final, h, -⟩ := BytesBuf.readEach_spec hvalid hf bufs
  rw [BytesBuf.flat, hbytes] at h
  exact ⟨final, h, written_readsFlat _ _⟩

/-- The two chunks of `body_poll_schedule_two_chunks`, read two bytes at a time. -/
theorem takeBody_readEach_two_chunks :
    let events := [BodyEvent.data [104, 105], .pending, .data [], .data [33]]
    let request : Request := ⟨.post, [47], []⟩
    let ctx : Context := [.orSecond (.leaf .never)]
    ctx.reach request (.leaf .takeBody) (.new events) [] = some (.new events, []) ∧
      ((Filter.leaf .takeBody).execute request (.new events) []).outcome =
        .success [.bytesBuf ⟨[[104, 105], [33]], 3⟩] ∧
      ∃ final, (BytesBuf.mk [[104, 105], [33]] 3).readEach 5 [[0, 0], [0, 0]] =
        some (.ok (final, readsFlat (chunksOf events).flatten [[0, 0], [0, 0]])) ∧
      written (readsFlat (chunksOf events).flatten [[0, 0], [0, 0]]) =
        (chunksOf events).flatten.take (readCount (readsFlat (chunksOf events).flatten [[0, 0], [0, 0]])) := by
  intro events request ctx
  have hr : ctx.reach request (.leaf .takeBody) (.new events) [] = some (.new events, []) := rfl
  have hs : ((Filter.leaf .takeBody).execute request (.new events) []).outcome =
      .success [.bytesBuf ⟨[[104, 105], [33]], 3⟩] := rfl
  exact ⟨hr, hs, takeBody_readEach request events hr hs 5 (by decide) _⟩

end Myth
