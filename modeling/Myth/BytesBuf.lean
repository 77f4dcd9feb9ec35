import Myth.Body

/-!
# Reading a body: `impl Buf for BytesBuf` and `impl Read for BytesBuf` (`body.rs`)

`body::all()` hands the body to the codecs as a `BytesBuf`, a deque of chunks with
their total length, and `serde_json::from_reader` and friends pull it through
`Read::read`.  `read` trims the caller's slice to what remains and fills it with the
`bytes` crate's default `Buf::copy_to_slice`, which loops over `chunk` and `advance`.
That loop is modelled with fuel: `none` is a loop that has not ended, an `error` is
a panic.

The buffer is read through its flattening `flat`, so that `advance cnt` is
`drop cnt` and each `read` is the `take` of what is left:

    advanceLoop_flatten   : advancing drops exactly `cnt` bytes of the chunks
    copyLoop_spec         : with enough fuel the copy loop ends and copies a prefix
    read_spec             : one `read` returns `min buf.len() remaining()`
    readEach_spec         : a run of reads is `readsFlat`, the reads of the flat bytes
-/

namespace Myth

namespace BytesBuf

/-! ## The code -/

/-- `Buf::remaining`. -/
def remaining (self : BytesBuf) : Nat := self.len

/-- `Buf::chunk`: the front chunk, or an empty slice. -/
def chunk (self : BytesBuf) : List UInt8 := self.bytes.headD []

/-- The `while let` loop of `Buf::advance`: it pops every chunk it consumes whole,
and splits the first one it does not. -/
def advanceLoop : Nat → List (List UInt8) → List (List UInt8)
  | _, [] => []
  | cnt, front :: rest =>
    if cnt < front.length then front.drop cnt :: rest
    else advanceLoop (cnt - front.length) rest

/-- `Buf::advance`; the panic is the error. -/
def advance (self : BytesBuf) (cnt : Nat) : Except String BytesBuf :=
  if cnt > self.len then .error "cannot advance past end of buffer"
  else .ok ⟨advanceLoop cnt self.bytes, self.len - cnt⟩

/-- The loop of `Buf::copy_to_slice` with `want` bytes of the slice still to fill: the
buffer afterwards and the bytes copied. -/
def copyLoop : Nat → BytesBuf → Nat → Option (Except String (BytesBuf × List UInt8))
  | _, self, 0 => some (.ok (self, []))
  | 0, _, _ + 1 => none
  | fuel + 1, self, want + 1 =>
    let src := self.chunk
    let cnt := min src.length (want + 1)
    match self.advance cnt with
    | .error message => some (.error message)
    | .ok self =>
      match copyLoop fuel self (want + 1 - cnt) with
      | some (.ok (self, rest)) => some (.ok (self, src.take cnt ++ rest))
      | other => other

/-- `Buf::copy_to_slice` into a slice of length `dst`, which it overwrites whole. -/
def copyToSlice (fuel : Nat) (self : BytesBuf) (dst : Nat) :
    Option (Except String (BytesBuf × List UInt8)) :=
  if self.remaining < dst then some (.error "assertion failed: self.remaining() >= dst.len()")
  else copyLoop fuel self dst

/-- `Read::read` into `buf`: the buffer afterwards, the caller's slice afterwards, and
the count returned. -/
def read (fuel : Nat) (self : BytesBuf) (buf : List UInt8) :
    Option (Except String (BytesBuf × List UInt8 × Nat)) :=
  let n := if self.remaining < buf.length then self.remaining else buf.length
  match copyToSlice fuel self n with
  | some (.ok (self, copied)) => some (.ok (self, copied ++ buf.drop n, n))
  | some (.error message) => some (.error message)
  | none => none

/-- `read` called once on each slice of `bufs`, in order: the buffer at the end, and
each slice afterwards with the count its call returned. -/
def readEach (fuel : Nat) : BytesBuf → List (List UInt8) →
    Option (Except String (BytesBuf × List (List UInt8 × Nat)))
  | self, [] => some (.ok (self, []))
  | self, buf :: bufs =>
    match self.read fuel buf with
    | some (.ok (self, buf, n)) =>
      match readEach fuel self bufs with
      | some (.ok (self, results)) => some (.ok (self, (buf, n) :: results))
      | other => other
    | some (.error message) => some (.error message)
    | none => none

/-! ## What reading is for -/

/-- The bytes still to be read, in order. -/
def flat (self : BytesBuf) : List UInt8 := self.bytes.flatten

/-- The invariant of a `BytesBuf`: `len` is the total length of the chunks it holds. -/
def Valid (self : BytesBuf) : Prop := self.len = totalLen self.bytes

instance (self : BytesBuf) : Decidable self.Valid := inferInstanceAs (Decidable (_ = _))

end BytesBuf

/-- A run of reads on the bytes `flat`: each call fills as much of its slice as there
are bytes left, and returns that count. -/
def readsFlat : List UInt8 → List (List UInt8) → List (List UInt8 × Nat)
  | _, [] => []
  | flat, buf :: bufs =>
    let n := min buf.length flat.length
    (flat.take n ++ buf.drop n, n) :: readsFlat (flat.drop n) bufs

/-- The bytes a run of reads wrote, in order: the first `n` of each slice. -/
def written (results : List (List UInt8 × Nat)) : List UInt8 :=
  (results.map fun result => result.1.take result.2).flatten

/-- The total of the counts a run of reads returned. -/
def readCount : List (List UInt8 × Nat) → Nat
  | [] => 0
  | result :: results => result.2 + readCount results

/-! ## The abstract reads -/

@[simp] theorem readCount_nil : readCount [] = 0 := rfl

@[simp] theorem readCount_cons (buf : List UInt8) (n : Nat) (results : List (List UInt8 × Nat)) :
    readCount ((buf, n) :: results) = n + readCount results := rfl

/-- The bytes written by a run of reads are the first bytes, as many as were counted. -/
theorem written_readsFlat (flat : List UInt8) (bufs : List (List UInt8)) :
    written (readsFlat flat bufs) = flat.take (readCount (readsFlat flat bufs)) := by
  induction bufs generalizing flat with
  | nil => simp [readsFlat, written]
  | cons buf bufs ih =>
    have hn : (flat.take (min buf.length flat.length)).length = min buf.length flat.length := by
      simp
    simp only [written, readsFlat, List.map_cons, List.flatten_cons, readCount_cons] at ih ⊢
    rw [ih, List.take_left' hn, List.take_add]

/-! ## Advancing -/

namespace BytesBuf

@[simp] theorem totalLen_eq_length (bytes : List (List UInt8)) :
    totalLen bytes = bytes.flatten.length := by
  induction bytes with
  | nil => rfl
  | cons buf bytes ih => simp [totalLen, ih]

theorem valid_iff {self : BytesBuf} : self.Valid ↔ self.len = self.flat.length := by
  simp [Valid, flat]

/-- Advancing drops exactly `cnt` bytes from the front of the chunks. -/
theorem advanceLoop_flatten (cnt : Nat) (bytes : List (List UInt8)) :
    (advanceLoop cnt bytes).flatten = bytes.flatten.drop cnt := by
  induction bytes generalizing cnt with
  | nil => simp [advanceLoop]
  | cons front rest ih =>
    simp only [advanceLoop, List.flatten_cons]
    split
    · rw [List.flatten_cons, List.drop_append_of_le_length (by omega)]
    · rw [ih, List.drop_append_eq_append_drop,
        List.drop_eq_nil_of_le (show front.length ≤ cnt by omega), List.nil_append]

theorem length_advanceLoop_le (cnt : Nat) (bytes : List (List UInt8)) :
    (advanceLoop cnt bytes).length ≤ bytes.length := by
  induction bytes generalizing cnt with
  | nil => simp [advanceLoop]
  | cons front rest ih =>
    simp only [advanceLoop]
    split
    · simp
    · exact (ih _).trans (Nat.le_succ _)

/-- Advancing by a non-empty front chunk's share of the copy, or past an empty front
chunk, takes a byte or a chunk off the buffer. -/
theorem length_advanceLoop_chunk {front : List UInt8} {rest : List (List UInt8)} {want : Nat} :
    (advanceLoop (min front.length (want + 1)) (front :: rest)).length + 1 ≤
      (front :: rest).length + min front.length (want + 1) := by
  simp only [advanceLoop]
  split
  · simp only [List.length_cons]
    omega
  · have := length_advanceLoop_le (min front.length (want + 1) - front.length) rest
    simp only [List.length_cons]
    omega

theorem advance_of_le {self : BytesBuf} {cnt : Nat} (h : cnt ≤ self.len) :
    self.advance cnt = .ok ⟨advanceLoop cnt self.bytes, self.len - cnt⟩ := by
  simp [advance, Nat.not_lt.mpr h]

/-- `advance cnt` with `cnt ≤ len` keeps the invariant and drops `cnt` bytes. -/
theorem advance_valid {self : BytesBuf} (hv : self.Valid) {cnt : Nat} (h : cnt ≤ self.len) :
    (⟨advanceLoop cnt self.bytes, self.len - cnt⟩ : BytesBuf).Valid ∧
      (⟨advanceLoop cnt self.bytes, self.len - cnt⟩ : BytesBuf).flat = self.flat.drop cnt := by
  refine ⟨?_, advanceLoop_flatten cnt self.bytes⟩
  simp only [valid_iff, flat, advanceLoop_flatten, List.length_drop] at hv ⊢
  omega

/-! ## The copy loop -/

/-- The front chunk is the front of the bytes. -/
theorem chunk_append (self : BytesBuf) :
    self.chunk ++ (self.bytes.drop 1).flatten = self.flat := by
  rcases self with ⟨_ | ⟨front, rest⟩, len⟩ <;> rfl

theorem take_chunk {self : BytesBuf} {cnt : Nat} (h : cnt ≤ self.chunk.length) :
    self.chunk.take cnt = self.flat.take cnt := by
  rw [← chunk_append, List.take_append_of_le_length h]

/-- With fuel for every byte to copy and every chunk, the copy loop ends without a
panic, copies the first `want` bytes, and keeps the invariant. -/
theorem copyLoop_spec {fuel want : Nat} {self : BytesBuf} (hv : self.Valid)
    (hw : want ≤ self.len) (hf : want + self.bytes.length ≤ fuel) :
    ∃ self', copyLoop fuel self want = some (.ok (self', self.flat.take want)) ∧
      self'.Valid ∧ self'.flat = self.flat.drop want ∧
      self'.bytes.length ≤ self.bytes.length := by
  induction fuel generalizing self want with
  | zero =>
    obtain rfl : want = 0 := by omega
    exact ⟨self, rfl, hv, rfl, le_rfl⟩
  | succ fuel ih =>
    cases want with
    | zero => exact ⟨self, rfl, hv, rfl, le_rfl⟩
    | succ want =>
      have hlen := valid_iff.mp hv
      obtain ⟨cnt, hcnt⟩ : ∃ cnt, min self.chunk.length (want + 1) = cnt := ⟨_, rfl⟩
      have hchunk : self.chunk.length ≤ self.len := by
        rw [hlen, ← chunk_append, List.length_append]
        omega
      have hcnt_le : cnt ≤ self.len := by omega
      obtain ⟨hv₁, hflat₁⟩ := advance_valid hv hcnt_le
      have hstep : (advanceLoop cnt self.bytes).length + 1 ≤ self.bytes.length + cnt := by
        obtain ⟨front, rest, hb⟩ := List.exists_cons_of_ne_nil (show self.bytes ≠ [] by
          intro h
          simp only [h, flat, List.flatten_nil, List.length_nil] at hlen
          omega)
        rw [← hcnt]
        simp only [chunk, hb, List.headD_cons]
        exact length_advanceLoop_chunk
      obtain ⟨self', hloop, hv', hflat', hbytes'⟩ := ih hv₁ (show want + 1 - cnt ≤ self.len - cnt by omega)
        (show _ + (advanceLoop cnt self.bytes).length ≤ fuel by omega)
      refine ⟨self', ?_, hv', ?_, hbytes'.trans (length_advanceLoop_le _ _)⟩
      · have hsplit : self.flat.take (want + 1) =
            self.flat.take cnt ++ (self.flat.drop cnt).take (want + 1 - cnt) := by
          rw [← List.take_add, Nat.add_sub_cancel' (by omega)]
        simp only [copyLoop, hcnt, advance_of_le hcnt_le, hloop, hflat₁,
          take_chunk (hcnt ▸ min_le_left _ _ : cnt ≤ self.chunk.length), hsplit]
      · rw [hflat', hflat₁, List.drop_drop]
        congr 1
        omega

/-! ## Reads -/

/-- One `read` on a valid buffer, with fuel for its bytes and chunks, returns
`min buf.len() remaining()`, copies that many of the first bytes into the slice, and
leaves a valid buffer without them. -/
theorem read_spec {fuel : Nat} {self : BytesBuf} (hv : self.Valid)
    (hf : self.len + self.bytes.length ≤ fuel) (buf : List UInt8) :
    ∃ self', self.read fuel buf = some (.ok (self',
        self.flat.take (min buf.length self.len) ++ buf.drop (min buf.length self.len),
        min buf.length self.len)) ∧
      self'.Valid ∧ self'.flat = self.flat.drop (min buf.length self.len) ∧
      self'.bytes.length ≤ self.bytes.length := by
  have hn : (if self.len < buf.length then self.len else buf.length) = min buf.length self.len := by
    split <;> omega
  obtain ⟨self', h, hv', hflat', hbytes'⟩ := copyLoop_spec hv (min_le_right buf.length self.len)
    (show min buf.length self.len + self.bytes.length ≤ fuel by omega)
  refine ⟨self', ?_, hv', hflat', hbytes'⟩
  simp only [read, hn, copyToSlice, remaining, Nat.not_lt.mpr (min_le_right _ _), if_false, h]

/-- A run of reads on a valid buffer, with fuel for its bytes and chunks, is the run
`readsFlat` of reads on its flat bytes, and leaves a valid buffer holding the bytes
not read. -/
theorem readEach_spec {fuel : Nat} {self : BytesBuf} (hv : self.Valid)
    (hf : self.len + self.bytes.length ≤ fuel) (bufs : List (List UInt8)) :
    ∃ self', self.readEach fuel bufs = some (.ok (self', readsFlat self.flat bufs)) ∧
      self'.Valid ∧ self'.flat = self.flat.drop (readCount (readsFlat self.flat bufs)) := by
  induction bufs generalizing self with
  | nil => exact ⟨self, rfl, hv, rfl⟩
  | cons buf bufs ih =>
    have hlen := valid_iff.mp hv
    obtain ⟨self₁, h₁, hv₁, hflat₁, hbytes₁⟩ := read_spec hv hf buf
    obtain ⟨self', h', hv', hflat'⟩ :=
      ih hv₁ (by rw [valid_iff.mp hv₁, hflat₁, List.length_drop]; omega)
    rw [hflat₁] at h' hflat'
    rw [List.drop_drop] at hflat'
    refine ⟨self', ?_, hv', ?_⟩
    · simp only [readEach, h₁, h', readsFlat, ← hlen]
    · simp only [readsFlat, readCount_cons, ← hlen, hflat', Nat.add_comm]

/-- A valid `BytesBuf`: `advance` by at most `len` keeps it valid; every `read`, with
fuel for the buffer's bytes and chunks, ends without a panic, returns
`min buf.len() remaining()`, copies that many of the first bytes and takes exactly
them off; and a run of reads is `readsFlat`, whose writes are the first bytes. -/
theorem read_sequence (self : BytesBuf) (hv : self.Valid) :
    (∀ cnt, cnt ≤ self.len → ∃ self', self.advance cnt = .ok self' ∧ self'.Valid ∧
      self'.flat = self.flat.drop cnt) ∧
    (∀ fuel, self.len + self.bytes.length ≤ fuel → ∀ buf : List UInt8,
      let n := min buf.length self.remaining
      ∃ self', self.read fuel buf = some (.ok (self', self.flat.take n ++ buf.drop n, n)) ∧
        self'.Valid ∧ self'.remaining = self.remaining - n ∧ self'.flat = self.flat.drop n) ∧
    (∀ fuel, self.len + self.bytes.length ≤ fuel → ∀ bufs : List (List UInt8),
      ∃ self', self.readEach fuel bufs = some (.ok (self', readsFlat self.flat bufs)) ∧
        self'.Valid ∧ self'.flat = self.flat.drop (readCount (readsFlat self.flat bufs)) ∧
        written (readsFlat self.flat bufs) = self.flat.take (readCount (readsFlat self.flat bufs))) := by
  refine ⟨fun cnt h => ⟨_, advance_of_le h, advance_valid hv h⟩, fun fuel hf buf => ?_,
    fun fuel hf bufs => ?_⟩
  · obtain ⟨self', h, hv', hflat', -⟩ := read_spec hv hf buf
    refine ⟨self', h, hv', ?_, hflat'⟩
    rw [remaining, remaining, valid_iff.mp hv', hflat', List.length_drop, ← valid_iff.mp hv]
  · obtain ⟨self', h, hv', hflat'⟩ := readEach_spec hv hf bufs
    exact ⟨self', h, hv', hflat', written_readsFlat _ _⟩

/-- The second half of the test `read_bytes_buf`, with an empty chunk added. -/
theorem read_sequence_digits :
    let self : BytesBuf := ⟨[[49, 50, 51, 52, 53], [], [54, 55, 56], [57, 48]], 10⟩
    self.Valid ∧ ∃ self', self.readEach 14
        [[0, 0], List.replicate 10 45, List.replicate 10 36, []] =
      some (.ok (self', [([49, 50], 2), ([51, 52, 53, 54, 55, 56, 57, 48, 45, 45], 8),
        (List.replicate 10 36, 0), ([], 0)])) := by
  intro self
  obtain ⟨-, -, hrun⟩ := read_sequence self (by decide)
  obtain ⟨self', h, -⟩ := hrun 14 (by decide) [[0, 0], List.replicate 10 45, List.replicate 10 36, []]
  have hflat : readsFlat self.flat [[0, 0], List.replicate 10 45, List.replicate 10 36, []] =
      [([49, 50], 2), ([51, 52, 53, 54, 55, 56, 57, 48, 45, 45], 8), (List.replicate 10 36, 0),
        ([], 0)] := by decide
  exact ⟨by decide, self', by rw [h, hflat]⟩

/-! ## The contract of `chunk` -/

/-- `advance` called with each count in turn: the buffer at the end, or the panic. -/
def advanceEach : BytesBuf → List Nat → Except String BytesBuf
  | self, [] => .ok self
  | self, cnt :: cnts => (self.advance cnt).bind fun self => advanceEach self cnts

/-- The total of the counts of a run of `advance` calls. -/
def advanceCount : List Nat → Nat
  | [] => 0
  | cnt :: cnts => cnt + advanceCount cnts

theorem advanceLoop_ne_nil {bytes : List (List UInt8)} (h : ∀ c ∈ bytes, c ≠ []) (cnt : Nat) :
    ∀ c ∈ advanceLoop cnt bytes, c ≠ [] := by
  induction bytes generalizing cnt with
  | nil => simp [advanceLoop]
  | cons front rest ih =>
    simp only [advanceLoop]
    split
    · intro c hc
      rcases List.mem_cons.mp hc with rfl | hc
      · exact fun hnil => by rw [List.drop_eq_nil_iff] at hnil; omega
      · exact h c (List.mem_cons_of_mem _ hc)
    · exact ih (fun c hc => h c (List.mem_cons_of_mem _ hc)) _

/-- Without empty chunks, `chunk` is empty exactly when nothing remains. -/
theorem chunk_eq_nil_iff {self : BytesBuf} (hv : self.Valid) (hne : ∀ c ∈ self.bytes, c ≠ []) :
    self.chunk = [] ↔ self.remaining = 0 := by
  rcases self with ⟨_ | ⟨front, rest⟩, len⟩
  · simp only [chunk, remaining, List.headD_nil, true_iff]
    exact hv
  · have hfront := List.length_pos.mpr (hne front (List.mem_cons_self _ _))
    simp only [Valid, totalLen] at hv
    simp only [chunk, remaining, List.headD_cons, hne front (List.mem_cons_self _ _), false_iff]
    omega

theorem chunk_prefix (self : BytesBuf) : self.chunk <+: self.flat :=
  ⟨_, chunk_append self⟩

/-- **`BytesBuf` keeps the contract of `Buf::chunk`.**  For every valid buffer with no
empty chunk, as `body::all()` builds it from a body whose chunks are not empty, and
every run of `advance` calls that together stay within `remaining()`, none panics,
they drop exactly the bytes counted, and afterwards `chunk()` is a prefix of what
remains, empty exactly when `remaining()` is 0.  An empty front chunk breaks the last
part: `chunk()` is then empty while bytes remain. -/
theorem advanceEach_chunk_contract (self : BytesBuf) (hv : self.Valid) (hne : ∀ c ∈ self.bytes, c ≠ [])
    (cnts : List Nat) (hsum : advanceCount cnts ≤ self.remaining) :
    ∃ self', self.advanceEach cnts = .ok self' ∧ self'.flat = self.flat.drop (advanceCount cnts) ∧
      self'.remaining = self.remaining - advanceCount cnts ∧ self'.chunk <+: self'.flat ∧
      (self'.chunk = [] ↔ self'.remaining = 0) := by
  induction cnts generalizing self with
  | nil => exact ⟨self, rfl, rfl, rfl, chunk_prefix self, chunk_eq_nil_iff hv hne⟩
  | cons cnt cnts ih =>
    rw [advanceCount] at hsum
    have hcnt : cnt ≤ self.len := by unfold remaining at hsum; omega
    obtain ⟨hv₁, hflat₁⟩ := advance_valid hv hcnt
    obtain ⟨self', h', hflat', hrem', hpre', hchunk'⟩ :=
      ih _ hv₁ (advanceLoop_ne_nil hne cnt) (show advanceCount cnts ≤ self.len - cnt by unfold remaining at hsum; omega)
    refine ⟨self', ?_, ?_, ?_, hpre', hchunk'⟩
    · rw [advanceEach, advance_of_le hcnt]
      exact h'
    · rw [hflat', hflat₁, List.drop_drop, advanceCount, Nat.add_comm]
    · rw [hrem', advanceCount]
      show self.len - cnt - advanceCount cnts = self.len - (cnt + advanceCount cnts)
      omega

/-- Two advances through a buffer of two chunks. -/
theorem advanceEach_chunk_contract_two :
    let self : BytesBuf := ⟨[[1, 2], [3]], 3⟩
    self.Valid ∧ (∀ c ∈ self.bytes, c ≠ []) ∧ advanceCount [1, 2] ≤ self.remaining ∧
      ∃ self', self.advanceEach [1, 2] = .ok self' ∧ self'.flat = self.flat.drop 3 ∧
        self'.remaining = self.remaining - 3 ∧ self'.chunk <+: self'.flat ∧
        (self'.chunk = [] ↔ self'.remaining = 0) := by
  intro self
  have hv : self.Valid := by decide
  have hne : ∀ c ∈ self.bytes, c ≠ [] := by decide
  exact ⟨hv, hne, by decide, advanceEach_chunk_contract self hv hne [1, 2] (by decide)⟩

/-- The contract needs non-empty chunks: a valid buffer whose front chunk is empty,
advanced by nothing, has an empty `chunk` while a byte remains. -/
theorem advanceEach_needs_nonempty_chunks :
    let self : BytesBuf := ⟨[[], [1]], 1⟩
    self.Valid ∧ advanceCount [] ≤ self.remaining ∧ self.advanceEach [] = .ok self ∧
      self.chunk = [] ∧ self.remaining ≠ 0 :=
  ⟨by decide, by decide, rfl, rfl, by decide⟩

end BytesBuf

end Myth
