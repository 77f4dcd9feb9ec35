import Myth.Lossy
import Myth.Router

/-!
# A route reads back the texts a client spells into the path (`path.rs`)

A client puts texts in a path by writing each as UTF-8, percent-encoding the bytes it
reserves, `%` and `/` among them (`percentEncode`), and writing a `/` before each
(`spellPath`).  `decoded_segment` undoes each step: the path's pieces are the encoded
texts, since none holds a `/` (`pieces_spellPath`); `percent_decode` gives their bytes
back (`percentDecode_percentEncode`); and `decode_utf8_lossy` the texts
(`decodeUtf8Lossy_flatMap`).  So a route's steps see the texts themselves, a `/`
inside one included.

    execute_route_spellPath : run from the start of such a path whose last text is not
                              empty, a route succeeds exactly when its steps accept the
                              texts one to one, and forwards with `NotFound` otherwise

Conversely, `decode_utf8_lossy` gives a text without U+FFFD only from its encoding
(`decodeUtf8Lossy_eq_iff`), so a route of literals takes exactly the paths whose pieces
percent-decode to the literals' bytes, whichever bytes a client escapes.

    execute_route_literals : a route of literals succeeds exactly when the path's pieces,
                             percent-decoded, are the literals' UTF-8 bytes

`tail_path()` decodes the whole rest of the path before it splits it, so there a `/`
stays a separator however it is written, and the names it keeps come back as spelled.

    execute_tailPath_spellPath : `tail_path()` returns the names spelled into the rest
                                 of the path, whenever `sanitize_path` keeps them
-/

namespace Myth

/-! ## The client's spelling -/

/-- The upper-case hex digit of `d < 16`. -/
def hexDigit (d : Nat) : UInt8 := (if d < 10 then 48 + d else 55 + d).toUInt8

/-- The bytes, with each byte `reserved` picks written as `%` and two hex digits. -/
def percentEncode (reserved : UInt8 → Bool) (bytes : List UInt8) : List UInt8 :=
  bytes.flatMap fun b => if reserved b then [37, hexDigit (b.toNat / 16), hexDigit (b.toNat % 16)] else [b]

/-- The UTF-8 bytes of a text. -/
def utf8Bytes (t : String) : List UInt8 := t.data.flatMap String.utf8EncodeChar

/-- The path of the texts: each after a `/`, as UTF-8 and percent-encoded. -/
def spellPath (reserved : UInt8 → Bool) (texts : List String) : List UInt8 :=
  texts.flatMap fun t => 47 :: percentEncode reserved (utf8Bytes t)

/-- The steps accept the texts one to one; the values are concatenated in order
(`routeMatch` on the texts in place of the pieces). -/
def acceptTexts : List Step → List String → Option Tuple
  | [], [] => some []
  | [], _ :: _ | _ :: _, [] => none
  | step :: steps, t :: texts =>
    (step.accept t).bind fun success => (acceptTexts steps texts).map (success ++ ·)

/-! ## Percent-decoding undoes the encoding -/

theorem hexDigit_spec : ∀ d : Fin 16, hexValue (hexDigit d) = some (d : Nat).toUInt8 ∧ hexDigit d ≠ 47 := by
  decide

theorem hexValue_hexDigit {d : Nat} (h : d < 16) : hexValue (hexDigit d) = some d.toUInt8 :=
  (hexDigit_spec ⟨d, h⟩).1

theorem hexDigit_ne_slash {d : Nat} (h : d < 16) : hexDigit d ≠ 47 :=
  (hexDigit_spec ⟨d, h⟩).2

/-- The two hex digits of a byte. -/
theorem hexDigits_lt (b : UInt8) : b.toNat < 256 ∧ b.toNat / 16 < 16 ∧ b.toNat % 16 < 16 := by
  have : b.toNat < 256 := UInt8.toNat_lt_size b
  omega

/-- A byte is its two hex digits, recombined as `percent_decode` does. -/
theorem hexDigits_recombine (b : UInt8) : (b.toNat / 16).toUInt8 * 16 + (b.toNat % 16).toUInt8 = b := by
  apply UInt8.toNat.inj
  show (BitVec.ofNat 8 (b.toNat / 16) * BitVec.ofNat 8 16 + BitVec.ofNat 8 (b.toNat % 16)).toNat = b.toNat
  simp only [BitVec.toNat_add, BitVec.toNat_mul, BitVec.toNat_ofNat]
  have := (hexDigits_lt b).1
  omega

theorem percentDecode_cons_of_ne {b : UInt8} (hb : b ≠ 37) (rest : List UInt8) :
    percentDecode (b :: rest) = b :: percentDecode rest :=
  percentDecode.eq_3 b rest fun _ _ _ h _ => hb h

section
variable {reserved : UInt8 → Bool} (h37 : reserved 37 = true)
include h37

theorem percentDecode_encodeByte (b : UInt8) (rest : List UInt8) :
    percentDecode ((if reserved b then [37, hexDigit (b.toNat / 16), hexDigit (b.toNat % 16)] else [b]) ++ rest) =
      b :: percentDecode rest := by
  by_cases hb : reserved b
  · obtain ⟨-, hhi, hlo⟩ := hexDigits_lt b
    rw [if_pos hb, List.cons_append, List.cons_append, List.cons_append, List.nil_append, percentDecode,
      hexValue_hexDigit hhi, hexValue_hexDigit hlo]
    exact congrArg (· :: _) (hexDigits_recombine b)
  · rw [if_neg hb, List.singleton_append, percentDecode_cons_of_ne fun h : b = 37 => hb (h ▸ h37)]

theorem percentDecode_percentEncode_append (bytes rest : List UInt8) :
    percentDecode (percentEncode reserved bytes ++ rest) = bytes ++ percentDecode rest := by
  induction bytes with
  | nil => rfl
  | cons b bytes ih =>
    rw [percentEncode, List.flatMap_cons, List.append_assoc, percentDecode_encodeByte h37, ← percentEncode, ih,
      List.cons_append]

theorem percentDecode_percentEncode (bytes : List UInt8) :
    percentDecode (percentEncode reserved bytes) = bytes := by
  simpa only [List.append_nil, percentDecode.eq_1] using percentDecode_percentEncode_append h37 bytes []

end

/-- A segment leaf decodes the encoding of a text to the text. -/
theorem decode_percentEncode {reserved : UInt8 → Bool} (h37 : reserved 37 = true) (t : String) :
    decode (percentEncode reserved (utf8Bytes t)) = t := by
  rw [decode, percentDecode_percentEncode h37, utf8Bytes, decodeUtf8Lossy_flatMap]

/-! ## The pieces of a spelled path -/

theorem slash_not_mem_percentEncode {reserved : UInt8 → Bool} (h47 : reserved 47 = true)
    (bytes : List UInt8) : 47 ∉ percentEncode reserved bytes := by
  simp only [percentEncode, List.mem_flatMap, not_exists, not_and]
  intro b _
  by_cases hb : reserved b
  · obtain ⟨-, hhi, hlo⟩ := hexDigits_lt b
    rw [if_pos hb]
    simp only [List.mem_cons, List.mem_singleton, List.not_mem_nil, or_false, not_or]
    exact ⟨by decide, (hexDigit_ne_slash hhi).symm, (hexDigit_ne_slash hlo).symm⟩
  · rw [if_neg hb, List.mem_singleton]
    exact fun h : 47 = b => hb (h ▸ h47)

theorem percentEncode_eq_nil {reserved : UInt8 → Bool} {t : String}
    (h : percentEncode reserved (utf8Bytes t) = []) : t = "" := by
  obtain ⟨_ | ⟨c, cs⟩⟩ := t
  · rfl
  · obtain ⟨b, bs, hc⟩ := List.exists_cons_of_ne_nil (List.ne_nil_of_length_pos (String.length_utf8EncodeChar c ▸ c.utf8Size_pos))
    simp only [percentEncode, utf8Bytes, List.flatMap_cons, hc, List.cons_append, List.flatMap_eq_nil_iff] at h
    split_ifs at h <;> simp at h

theorem flatMap_cons_eq_intercalate {α : Type} (x : α) (ls : List (List α)) (l : List α) :
    (l :: ls).flatMap (x :: ·) = x :: [x].intercalate (l :: ls) := by
  induction ls generalizing l with
  | nil => simp [List.intercalate]
  | cons m ms ih =>
    rw [List.flatMap_cons, ih]
    simp [List.intercalate, List.intersperse_cons_cons]

theorem pieces_flatMap_slash {ls : List (List UInt8)} (hls : ls ≠ []) (h : ∀ l ∈ ls, 47 ∉ l) :
    pieces (ls.flatMap (47 :: ·)) = ls := by
  obtain ⟨l, ls, rfl⟩ := List.exists_cons_of_ne_nil hls
  rw [pieces, flatMap_cons_eq_intercalate, stripSlash, List.splitOn_intercalate _ _ h (List.cons_ne_nil _ _)]

theorem pieces_spellPath {reserved : UInt8 → Bool} (h47 : reserved 47 = true) {texts : List String}
    (h : texts ≠ []) :
    pieces (spellPath reserved texts) = texts.map fun t => percentEncode reserved (utf8Bytes t) := by
  refine (congrArg pieces (List.flatMap_map _ _ _).symm).trans (pieces_flatMap_slash (by simpa using h) ?_)
  simp only [List.mem_map]
  rintro _ ⟨t, _, rfl⟩
  exact slash_not_mem_percentEncode h47 _

/-! ## What a route does with them -/

theorem routeMatch_eq_acceptTexts (steps : List Step) (ps : List (List UInt8)) :
    routeMatch steps ps = acceptTexts steps (ps.map decode) := by
  induction steps generalizing ps with
  | nil => cases ps <;> rfl
  | cons step steps ih =>
    cases ps with
    | nil => rfl
    | cons p ps => simp only [routeMatch, acceptTexts, List.map_cons, ih]

/-- **A route reads back the texts spelled into the path.**  For every choice of
reserved bytes that takes `%` and `/`, every route of literal, `param_str` and
`param::<T>` steps ended by `end()`, and every request for the path spelled from texts
whose last is not empty, run from the start of the path, the route succeeds exactly
when its steps accept the texts one to one, with their values, and otherwise forwards
with `NotFound`. -/
theorem execute_route_spellPath {reserved : UInt8 → Bool} (h37 : reserved 37 = true)
    (h47 : reserved 47 = true) (first : Step) (rest : List Step) {texts : List String}
    (hlast : texts.getLast? ≠ some "") (request : Request) (hpath : request.fullPath = spellPath reserved texts)
    (st : RequestState) (h0 : st.currentPathIndex = 0) :
    ((route first rest).execute request st []).outcome =
      (acceptTexts (first :: rest) texts).elim (.forward [] .notFound) .success := by
  rw [route_walk request first rest st h0, walk_eq_routeOutcome, routeOutcome_piecesAfter, hpath]
  cases texts with
  | nil => rfl
  | cons t ts =>
    have hne : ((t :: ts).map fun t => percentEncode reserved (utf8Bytes t)).getLast? ≠ some [] := by
      rw [List.getLast?_map]
      rintro h
      obtain ⟨t, ht, he⟩ := Option.map_eq_some'.mp h
      exact hlast (percentEncode_eq_nil he ▸ ht)
    rw [routeOutcome, pieces_spellPath h47 (List.cons_ne_nil t ts), if_neg hne, routeMatch_eq_acceptTexts, List.map_map,
      show decode ∘ (fun t => percentEncode reserved (utf8Bytes t)) = id from funext (decode_percentEncode h37),
      List.map_id]
    cases acceptTexts (first :: rest) (t :: ts) <;> rfl

/-- The path of the code's own test of `param_str`: the Greek letters and the space
percent-encoded, read back as the text. -/
theorem execute_route_spellPath_greek :
    let reserved := fun b : UInt8 => 0x80 ≤ b || b == 32 || b == 37 || b == 47
    let request : Request := ⟨.get, utf8Bytes "/%CE%B3%CE%B5%CE%B9%CE%B1%20%CF%83%CE%B1%CF%82", []⟩
    reserved 37 = true ∧ reserved 47 = true ∧ ["γεια σας"].getLast? ≠ some "" ∧
      request.fullPath = spellPath reserved ["γεια σας"] ∧ (RequestState.new []).currentPathIndex = 0 ∧
      ((route .paramStr []).execute request (.new []) []).outcome = .success [.str "γεια σας"] := by
  intro reserved request
  have hpath : request.fullPath = spellPath reserved ["γεια σας"] := by decide
  exact ⟨rfl, rfl, by decide, hpath, rfl,
    execute_route_spellPath (show reserved 37 = true from rfl) rfl .paramStr [] (by decide) request hpath _ rfl⟩

/-! ## Routes of literals -/

theorem routeOutcome_eq_success_iff {location : List UInt8} {steps : List Step} {ps : List (List UInt8)}
    {values : Tuple} :
    routeOutcome location steps ps = .success values ↔ ps.getLast? ≠ some [] ∧ routeMatch steps ps = some values := by
  unfold routeOutcome
  by_cases hlast : ps.getLast? = some []
  · rw [if_pos hlast]
    split_ifs <;> simp [hlast]
  · rw [if_neg hlast]
    cases routeMatch steps ps <;> simp [hlast]

theorem acceptTexts_literals_eq_some (lits : List Literal) (texts : List String) (values : Tuple) :
    acceptTexts (lits.map Step.literal) texts = some values ↔ values = [] ∧ texts = lits.map Literal.value := by
  induction lits generalizing texts values with
  | nil => cases texts <;> simp [acceptTexts, eq_comm]
  | cons lit lits ih =>
    cases texts with
    | nil => simp [acceptTexts]
    | cons t texts =>
      by_cases hv : lit.value = t
      · simp [acceptTexts, Step.accept, hv, ih]
      · simp [acceptTexts, Step.accept, hv, Ne.symm hv]

/-- Pieces decode to literals without U+FFFD exactly when they percent-decode to their bytes. -/
theorem map_decode_eq_iff {lits : List Literal} (hfffd : ∀ lit ∈ lits, '�' ∉ lit.value.data)
    (ps : List (List UInt8)) :
    ps.map decode = lits.map Literal.value ↔ ps.map percentDecode = lits.map fun lit => utf8Bytes lit.value := by
  induction lits generalizing ps with
  | nil => simp
  | cons lit lits ih =>
    cases ps with
    | nil => simp
    | cons p ps =>
      simp only [List.map_cons, List.cons.injEq, decode, utf8Bytes,
        decodeUtf8Lossy_eq_iff (hfffd lit (List.mem_cons_self _ _)),
        ih (fun l hl => hfffd l (List.mem_cons_of_mem _ hl))]

/-- **A route of literals takes exactly the spellings of its literals.**  For every
route of literals without U+FFFD ended by `end()`, every request and every state whose
cursor is at the start of the path, the route succeeds exactly when the path's pieces,
each percent-decoded, are the literals' UTF-8 bytes one to one: `literal` compares
texts, and the lossy decoding in between neither merges two byte strings into a
literal nor drops one. -/
theorem execute_route_literals (first : Literal) (rest : List Literal)
    (hfffd : ∀ lit ∈ first :: rest, '�' ∉ lit.value.data) (request : Request) (st : RequestState)
    (h0 : st.currentPathIndex = 0) :
    ((route (.literal first) (rest.map .literal)).execute request st []).outcome = .success [] ↔
      (pieces request.fullPath).map percentDecode = (first :: rest).map fun lit => utf8Bytes lit.value := by
  rw [route_walk request _ _ st h0, walk_eq_routeOutcome, routeOutcome_piecesAfter, routeOutcome_eq_success_iff,
    show Step.literal first :: rest.map Step.literal = (first :: rest).map Step.literal from rfl,
    routeMatch_eq_acceptTexts, acceptTexts_literals_eq_some, ← map_decode_eq_iff hfffd]
  refine ⟨fun h => h.2.2, fun h => ⟨fun hlast => ?_, rfl, h⟩⟩
  have hl := congrArg List.getLast? h
  rw [List.getLast?_map, List.getLast?_map, hlast] at hl
  obtain ⟨lit, -, hv⟩ := Option.map_eq_some'.mp hl.symm
  exact lit.nonempty hv

/-- The route `literal("é").and(end())` takes `/%C3%A9`, the escaped spelling of `/é`. -/
theorem execute_route_literals_escaped :
    let lit : Literal := ⟨"é", by decide, by decide⟩
    let request : Request := ⟨.get, utf8Bytes "/%C3%A9", []⟩
    (∀ l ∈ [lit], '�' ∉ l.value.data) ∧ (RequestState.new []).currentPathIndex = 0 ∧
      ((route (.literal lit) []).execute request (.new []) []).outcome = .success [] := by
  intro lit request
  have hfffd : ∀ l ∈ [lit], '�' ∉ l.value.data := by decide
  exact ⟨hfffd, rfl, (execute_route_literals lit [] hfffd request _ rfl).mpr (by decide)⟩

/-! ## File paths -/

theorem percentDecode_spellPath {reserved : UInt8 → Bool} (h37 : reserved 37 = true) (names : List String) :
    percentDecode (spellPath reserved names) = (names.flatMap fun name => '/' :: name.data).flatMap String.utf8EncodeChar := by
  induction names with
  | nil => rfl
  | cons name names ih =>
    rw [spellPath, List.flatMap_cons, List.cons_append, percentDecode_cons_of_ne (by decide),
      percentDecode_percentEncode_append h37, ← spellPath, ih, List.flatMap_cons, List.flatMap_append,
      List.flatMap_cons]
    rfl

/-- The segments of the decoded path: an empty one before the first `/`, then the names. -/
theorem splitOn_flatMap_slash {names : List String} (h : ∀ name ∈ names, '/' ∉ name.data) :
    (names.flatMap fun name => '/' :: name.data).splitOn '/' = [] :: names.map String.data := by
  have hx : ∀ l ∈ names.map String.data, '/' ∉ l := by
    simp only [List.mem_map]
    rintro _ ⟨name, hname, rfl⟩
    exact h name hname
  cases names with
  | nil => rfl
  | cons name names =>
    rw [← List.flatMap_map String.data (fun cs => '/' :: cs), List.map_cons] at *
    rw [flatMap_cons_eq_intercalate, List.splitOn, List.splitOnP_cons, if_pos (by simp), ← List.splitOn,
      List.splitOn_intercalate _ _ hx (List.cons_ne_nil _ _)]

/-- **`tail_path()` reads back the file names spelled into the path.**  For every
choice of reserved bytes that takes `%`, and every list of names that `sanitize_path`
keeps as components (not empty, without `/`, and rejected by none of its checks), when
the rest of the path after the cursor is the names spelled as a path, `tail_path()`
succeeds with exactly those names and moves the cursor to the end. -/
theorem execute_tailPath_spellPath {reserved : UInt8 → Bool} (h37 : reserved 37 = true) {names : List String}
    (hnames : ∀ name ∈ names, name ≠ "" ∧ '/' ∉ name.data ∧ rejectSegment name.data = false)
    (request : Request) (st : RequestState) (hpath : st.currentPath request = spellPath reserved names)
    (input : Tuple) :
    (Filter.leaf .tailPath).execute request st input = ⟨st.endCurrentPathIndex request, .success [.pathBuf names]⟩ := by
  have hkeep : ([] :: names.map String.data).any rejectSegment = false := by
    rw [List.any_eq_false]
    simp only [List.mem_cons, List.mem_map]
    rintro _ (rfl | ⟨name, hname, rfl⟩)
    · decide
    · simp only [(hnames name hname).2.2, Bool.false_eq_true, not_false_eq_true]
  have hfilter : ([] :: names.map String.data).filter (fun seg => !seg.isEmpty) = names.map String.data := by
    rw [List.filter_cons_of_neg (by decide), List.filter_eq_self]
    simp only [List.mem_map]
    rintro _ ⟨name, hname, rfl⟩
    cases name with
    | mk cs => cases cs with
      | nil => exact absurd rfl (hnames _ hname).1
      | cons c cs => rfl
  simp only [Filter.execute, Leaf.execute, readyOutcome, tailPath, sanitizePath, hpath, percentDecode_spellPath h37,
    decodeUtf8_flatMap, splitOn_flatMap_slash fun name hname => (hnames name hname).2.1, hkeep, hfilter,
    List.map_map, Bool.false_eq_true, ite_false, show String.mk ∘ String.data = id from rfl, List.map_id]
  rfl

/-- `/docs/caf%C3%A9.txt` is the names `docs` and `café.txt`. -/
theorem execute_tailPath_spellPath_escaped :
    let reserved := fun b : UInt8 => 0x80 ≤ b || b == 32 || b == 37
    let request : Request := ⟨.get, utf8Bytes "/docs/caf%C3%A9.txt", []⟩
    reserved 37 = true ∧
      (∀ name ∈ ["docs", "café.txt"], name ≠ "" ∧ '/' ∉ name.data ∧ rejectSegment name.data = false) ∧
      (RequestState.new []).currentPath request = spellPath reserved ["docs", "café.txt"] ∧
      (Filter.leaf .tailPath).execute request (.new []) [] =
        ⟨(RequestState.new []).endCurrentPathIndex request, .success [.pathBuf ["docs", "café.txt"]]⟩ := by
  intro reserved request
  have hnames : ∀ name ∈ ["docs", "café.txt"], name ≠ "" ∧ '/' ∉ name.data ∧ rejectSegment name.data = false := by
    decide
  have hpath : (RequestState.new []).currentPath request = spellPath reserved ["docs", "café.txt"] := by decide
  exact ⟨rfl, hnames, hpath, execute_tailPath_spellPath (show reserved 37 = true from rfl) hnames request _ hpath []⟩

end Myth
