import Myth.Outcome

/-!
# Path filters: `path.rs`

`segment` reads the next `/`-separated piece of the path after the cursor,
`decoded_segment` percent-decodes it (`percent_decode_str`) and decodes the bytes as
UTF-8, replacing ill-formed sequences (`decode_utf8_lossy`); the cursor moves only
when the filter's test accepts the piece.  The leaves below are the closures the
code gives `ready_filter` (or the bodies of its hand-written leaf futures): each
maps the request and the state to the state handed back and an outcome with unit
input.

    segment_spec         : the piece `segment` reads, and that the cursor moves onto a `/` or the end
    sanitizePath_eq_some : the strings `sanitize_path` accepts, and the components it keeps
-/

namespace Myth

/-! ## Decoding -/

/-- The value of an ASCII hex digit. -/
def hexValue (b : UInt8) : Option UInt8 :=
  if 48 ≤ b ∧ b ≤ 57 then some (b - 48)
  else if 65 ≤ b ∧ b ≤ 70 then some (b - 55)
  else if 97 ≤ b ∧ b ≤ 102 then some (b - 87)
  else none

/-- `percent_decode`: a `%` followed by two hex digits is the byte they spell; every
other byte stays. -/
def percentDecode : List UInt8 → List UInt8
  | [] => []
  | 37 :: h :: l :: rest =>
    match hexValue h, hexValue l with
    | some hi, some lo => (hi * 16 + lo) :: percentDecode rest
    | _, _ => 37 :: percentDecode (h :: l :: rest)
  | b :: rest => b :: percentDecode rest

/-- A UTF-8 continuation byte. -/
def isCont (b : UInt8) : Bool := 0x80 ≤ b && b ≤ 0xBF

/-- The payload bits of a continuation byte. -/
def contBits (b : UInt8) : Nat := (b &&& 0x3F).toNat

/-- Whether `b1` may follow the lead byte `b0` of a three-byte sequence. -/
def secondOk3 (b0 b1 : UInt8) : Bool :=
  if b0 = 0xE0 then 0xA0 ≤ b1 && b1 ≤ 0xBF
  else if b0 = 0xED then 0x80 ≤ b1 && b1 ≤ 0x9F
  else isCont b1

/-- Whether `b1` may follow the lead byte `b0` of a four-byte sequence. -/
def secondOk4 (b0 b1 : UInt8) : Bool :=
  if b0 = 0xF0 then 0x90 ≤ b1 && b1 ≤ 0xBF
  else if b0 = 0xF4 then 0x80 ≤ b1 && b1 ≤ 0x8F
  else isCont b1

/-- The character at the front of `bytes` and the bytes after it; `none` for the
longest ill-formed prefix of a sequence, which becomes one U+FFFD. -/
def utf8Next : List UInt8 → Option (Option Char × List UInt8)
  | [] => none
  | b0 :: rest => some <|
    if b0 < 0x80 then (some (Char.ofNat b0.toNat), rest)
    else if 0xC2 ≤ b0 ∧ b0 ≤ 0xDF then
      match rest with
      | b1 :: r1 =>
        if isCont b1 then (some (Char.ofNat ((b0 &&& 0x1F).toNat * 64 + contBits b1)), r1)
        else (none, rest)
      | [] => (none, rest)
    else if 0xE0 ≤ b0 ∧ b0 ≤ 0xEF then
      match rest with
      | b1 :: r1 =>
        if secondOk3 b0 b1 then
          match r1 with
          | b2 :: r2 =>
            if isCont b2 then
              (some (Char.ofNat ((b0 &&& 0x0F).toNat * 4096 + contBits b1 * 64 + contBits b2)), r2)
            else (none, r1)
          | [] => (none, r1)
        else (none, rest)
      | [] => (none, rest)
    else if 0xF0 ≤ b0 ∧ b0 ≤ 0xF4 then
      match rest with
      | b1 :: r1 =>
        if secondOk4 b0 b1 then
          match r1 with
          | b2 :: r2 =>
            if isCont b2 then
              match r2 with
              | b3 :: r3 =>
                if isCont b3 then
                  (some (Char.ofNat ((b0 &&& 0x07).toNat * 262144 + contBits b1 * 4096 +
                    contBits b2 * 64 + contBits b3)), r3)
                else (none, r2)
              | [] => (none, r2)
            else (none, r1)
          | [] => (none, r1)
        else (none, rest)
      | [] => (none, rest)
    else (none, rest)

/-- UTF-8 decoding with `fuel` steps: the characters, with U+FFFD for each ill-formed
subsequence, and whether there was one. -/
def utf8Decode : Nat → List UInt8 → List Char × Bool
  | 0, _ => ([], false)
  | fuel + 1, bytes =>
    match utf8Next bytes with
    | none => ([], false)
    | some (c, rest) =>
      let (cs, bad) := utf8Decode fuel rest
      (c.getD '�' :: cs, bad || c.isNone)

/-- `decode_utf8_lossy` (`String::from_utf8_lossy`). -/
def decodeUtf8Lossy (bytes : List UInt8) : String :=
  String.mk (utf8Decode bytes.length bytes).1

/-- `decode_utf8` (`str::from_utf8`): the text, when the bytes are well-formed. -/
def decodeUtf8 (bytes : List UInt8) : Option (List Char) :=
  let (cs, bad) := utf8Decode bytes.length bytes
  if bad then none else some cs

/-- `percent_decode_str(segment).decode_utf8_lossy()`. -/
def decode (segment : List UInt8) : String := decodeUtf8Lossy (percentDecode segment)

/-! ## Segments -/

/-- `str::find('/')`, with the length when there is none (`unwrap_or(len)`). -/
def findSlash (path : List UInt8) : Nat := path.indexOf 47

/-- `segment`: the next piece of the path after the cursor, and how far the cursor
moves past it (a leading `/` included). -/
def segment (request : Request) (st : RequestState) : Option (List UInt8 × Nat) :=
  match st.currentPath request with
  | [] | [47] => none
  | 47 :: currentPath => some (currentPath.take (findSlash currentPath), findSlash currentPath + 1)
  | currentPath => some (currentPath.take (findSlash currentPath), findSlash currentPath)

/-- `current_path` with one leading `/` dropped, as `segment` reads it. -/
def stripSlash : List UInt8 → List UInt8
  | 47 :: rest => rest
  | rest => rest

theorem stripSlash_of_ne {path : List UInt8} (h : ∀ rest, path ≠ 47 :: rest) :
    stripSlash path = path := by
  match path, h with
  | [], _ => rfl
  | b :: rest, h =>
    have hb : b ≠ 47 := fun hb => h rest (by rw [hb])
    simp [stripSlash, hb]

theorem drop_findSlash (path : List UInt8) :
    path.drop (findSlash path) = [] ∨ ∃ rest, path.drop (findSlash path) = 47 :: rest := by
  induction path with
  | nil => exact .inl rfl
  | cons b path ih =>
    by_cases hb : b = 47
    · subst hb
      exact .inr ⟨path, by simp [findSlash]⟩
    · simpa [findSlash, List.indexOf_cons_ne _ hb] using ih

theorem not_mem_take_findSlash (path : List UInt8) : 47 ∉ path.take (findSlash path) := by
  induction path with
  | nil => simp
  | cons b path ih =>
    by_cases hb : b = 47
    · subst hb
      simp [findSlash]
    · simpa [findSlash, List.indexOf_cons_ne _ hb, Ne.symm hb] using ih

/-- What `segment` reads: with the leading `/` dropped, the current path is the piece
and then the rest from the next `/` on (or nothing), and the cursor moves onto that
`/` or to the end. -/
theorem segment_spec {request : Request} {st : RequestState} {seg : List UInt8} {len : Nat}
    (h : segment request st = some (seg, len)) :
    st.currentPath request ≠ [] ∧ st.currentPath request ≠ [47] ∧
      len ≤ (st.currentPath request).length ∧
      stripSlash (st.currentPath request) = seg ++ (st.currentPath request).drop len ∧ 47 ∉ seg ∧
      ((st.currentPath request).drop len = [] ∨ ∃ rest, (st.currentPath request).drop len = 47 :: rest) := by
  unfold segment at h
  split at h
  · cases h
  · cases h
  · rename_i path hne hpath
    cases h
    rw [hpath]
    refine ⟨List.cons_ne_nil _ _, by simpa using hne, ?_, ?_, not_mem_take_findSlash path,
      drop_findSlash path⟩
    · simpa using List.indexOf_le_length
    · simp [stripSlash]
  · rename_i hnil _ hslash
    cases h
    refine ⟨hnil, by assumption, List.indexOf_le_length, ?_, not_mem_take_findSlash _,
      drop_findSlash _⟩
    rw [stripSlash_of_ne hslash, List.take_append_drop]

/-- `decoded_segment`: `func` tests the decoded piece; the cursor moves only if it
accepts it. -/
def decodedSegment {S : Type} (request : Request) (st : RequestState) (func : String → Option S) :
    RequestState × Outcome Unit S :=
  match segment request st with
  | some (seg, len) =>
    match func (decode seg) with
    | some success => (st.incrCurrentPathIndex len, .success success)
    | none => (st, .forward () .notFound)
  | none => (st, .forward () .notFound)

/-! ## Leaves -/

/-- The value of `path::literal(value)`, which the code asserts non-empty and
without a `/`. -/
structure Literal where
  value : String
  nonempty : value ≠ ""
  noSlash : '/' ∉ value.data

/-- The closure of `path::literal`. -/
def literal (lit : Literal) (request : Request) (st : RequestState) : RequestState × Outcome Unit Tuple :=
  decodedSegment request st fun segment => if lit.value = segment then some [] else none

/-- `ParamStr::execute` (`path::param_str`). -/
def paramStr (request : Request) (st : RequestState) : RequestState × Outcome Unit Tuple :=
  decodedSegment request st fun segment => some [.str segment]

/-- The closure of `path::end`. -/
def pathEnd (request : Request) (st : RequestState) : RequestState × Outcome Unit Tuple :=
  if request.fullPath = [] ∨ request.fullPath = [47] then (st, .success [])
  else
    match st.currentPath request with
    | [] => (st, .success [])
    | [47] => (st, .error (.redirect (st.previousPath request)))
    | _ => (st, .forward () .notFound)

/-- `Tail::execute` (`path::tail`): the rest of the path, unchecked. -/
def tail (request : Request) (st : RequestState) : RequestState × Outcome Unit Tuple :=
  (st.endCurrentPathIndex request, .success [.str (decodeUtf8Lossy (st.currentPath request))])

/-- Why `sanitize_path` rejects a decoded segment, if it does. -/
def rejectSegment (seg : List Char) : Bool :=
  seg.head? = some '.' || seg.head? = some '*' || seg.getLast? = some ':' ||
    seg.getLast? = some '>' || seg.getLast? = some '<' || seg.contains '\\' || seg.contains '\x00'

/-- `sanitize_path`: the components of the decoded path, or `None` if it is not
UTF-8 or some segment looks like a traversal. -/
def sanitizePath (string : List UInt8) : Option (List String) :=
  match decodeUtf8 (percentDecode string) with
  | none => none
  | some decoded =>
    let segs := decoded.splitOn '/'
    if segs.any rejectSegment then none
    else some ((segs.filter fun seg => !seg.isEmpty).map String.mk)

/-- The closure of `path::tail_path`. -/
def tailPath (request : Request) (st : RequestState) : RequestState × Outcome Unit Tuple :=
  match sanitizePath (st.currentPath request) with
  | some sanitized => (st.endCurrentPathIndex request, .success [.pathBuf sanitized])
  | none => (st, .forward () .notFound)

/-! ## Sanitized paths -/

/-- No piece of a list split on `p` holds an element `p` accepts. -/
theorem not_of_mem_splitOnP {α : Type} {p : α → Bool} {l seg : List α} (h : seg ∈ l.splitOnP p) :
    ∀ x ∈ seg, p x = false := by
  induction l generalizing seg with
  | nil => simp_all
  | cons y ys ih =>
    rw [List.splitOnP_cons] at h
    split at h
    · rcases List.mem_cons.mp h with rfl | h
      · simp
      · exact ih h
    · rename_i hy
      obtain ⟨first, rest, hs⟩ := List.exists_cons_of_ne_nil (List.splitOnP_ne_nil p ys)
      rw [hs, List.modifyHead_cons, List.mem_cons] at h
      rw [hs] at ih
      rcases h with rfl | h
      · exact List.forall_mem_cons.mpr ⟨by simpa using hy, ih (List.mem_cons_self _ _)⟩
      · exact ih (List.mem_cons_of_mem _ h)

/-- A segment `sanitize_path` keeps. -/
theorem rejectSegment_eq_false {seg : List Char} :
    rejectSegment seg = false ↔ seg.head? ≠ some '.' ∧ seg.head? ≠ some '*' ∧
      seg.getLast? ≠ some ':' ∧ seg.getLast? ≠ some '>' ∧ seg.getLast? ≠ some '<' ∧
      '\\' ∉ seg ∧ '\x00' ∉ seg := by
  simp [rejectSegment, and_assoc]

theorem sanitizePath_eq_some {string : List UInt8} {pb : List String} :
    sanitizePath string = some pb ↔
      ∃ d, decodeUtf8 (percentDecode string) = some d ∧
        (∀ seg ∈ d.splitOn '/', seg.head? ≠ some '.' ∧ seg.head? ≠ some '*' ∧
          seg.getLast? ≠ some ':' ∧ seg.getLast? ≠ some '>' ∧ seg.getLast? ≠ some '<' ∧
          '\\' ∉ seg ∧ '\x00' ∉ seg) ∧
        pb = ((d.splitOn '/').filter fun seg => seg ≠ []).map String.mk := by
  unfold sanitizePath
  rcases decodeUtf8 (percentDecode string) with _ | d
  · simp
  · have hkeep : (∀ seg ∈ d.splitOn '/', seg.head? ≠ some '.' ∧ seg.head? ≠ some '*' ∧
          seg.getLast? ≠ some ':' ∧ seg.getLast? ≠ some '>' ∧ seg.getLast? ≠ some '<' ∧
          '\\' ∉ seg ∧ '\x00' ∉ seg) ↔ (d.splitOn '/').any rejectSegment = false := by
      simp only [List.any_eq_false, Bool.not_eq_true, rejectSegment_eq_false]
    have hne : (fun seg : List Char => !seg.isEmpty) = fun seg => decide (seg ≠ []) := by
      funext seg
      cases seg <;> rfl
    simp only [Option.some.injEq, exists_eq_left', hkeep, hne]
    cases (d.splitOn '/').any rejectSegment
    · simpa using eq_comm
    · simp

/-- What `sanitize_path` keeps is a list of components, none empty, `.` or `..`, and
none holding a path separator. -/
theorem sanitizePath_component {string : List UInt8} {pb : List String}
    (h : sanitizePath string = some pb) {c : String} (hc : c ∈ pb) :
    c ≠ "" ∧ c ≠ "." ∧ c ≠ ".." ∧ '/' ∉ c.data ∧ '\\' ∉ c.data := by
  obtain ⟨d, -, hkeep, rfl⟩ := sanitizePath_eq_some.mp h
  simp only [List.mem_map, List.mem_filter, decide_eq_true_eq] at hc
  obtain ⟨seg, ⟨hseg, hne⟩, rfl⟩ := hc
  obtain ⟨hdot, -, -, -, -, hback, -⟩ := hkeep seg hseg
  have hslash : '/' ∉ seg := fun hmem => by
    simpa using not_of_mem_splitOnP hseg '/' hmem
  refine ⟨fun h => hne (congrArg String.data h), fun h => hdot ?_, fun h => hdot ?_, hslash, hback⟩
  · rw [show seg = ['.'] from congrArg String.data h]
    rfl
  · rw [show seg = ['.', '.'] from congrArg String.data h]
    rfl

/-- **`sanitize_path`.**  It accepts exactly the strings that percent-decode to UTF-8
with no `/`-separated segment that starts with `.` or `*`, ends with `:`, `>` or `<`,
or holds a backslash or a NUL, and keeps their non-empty segments in order; so no
component it keeps is empty, `.` or `..`, or holds a separator. -/
theorem sanitize_path_safe (string : List UInt8) (pb : List String) :
    (sanitizePath string = some pb ↔
      ∃ d, decodeUtf8 (percentDecode string) = some d ∧
        (∀ seg ∈ d.splitOn '/', seg.head? ≠ some '.' ∧ seg.head? ≠ some '*' ∧
          seg.getLast? ≠ some ':' ∧ seg.getLast? ≠ some '>' ∧ seg.getLast? ≠ some '<' ∧
          '\\' ∉ seg ∧ '\x00' ∉ seg) ∧
        pb = ((d.splitOn '/').filter fun seg => seg ≠ []).map String.mk) ∧
    (sanitizePath string = some pb →
      ∀ c ∈ pb, c ≠ "" ∧ c ≠ "." ∧ c ≠ ".." ∧ '/' ∉ c.data ∧ '\\' ∉ c.data) :=
  ⟨sanitizePath_eq_some, fun h _ hc => sanitizePath_component h hc⟩

/-- `%2e%2e%2faaa`, which decodes to `../aaa`, is refused. -/
example : sanitizePath [37, 50, 101, 37, 50, 101, 37, 50, 102, 97, 97, 97] = none := by decide

/-- `/example.html` is the one component `example.html`. -/
example : sanitizePath [47, 101, 120, 97, 109, 112, 108, 101, 46, 104, 116, 109, 108] =
    some ["example.html"] := by decide

end Myth
