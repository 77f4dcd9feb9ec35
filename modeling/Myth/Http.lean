import Mathlib.Data.List.Basic

/-!
# Requests and responses: `request.rs`, `method.rs`, `header.rs`, `response.rs`

The immutable facts of a request that the filters read: its method, the bytes of
`uri.path()`, and the header multimap.  A path is kept as the bytes of the `&str`,
so that `current_path_index` is the byte offset the code slices at.  Header names
are kept lower-case, as `http` stores them; a header value is its bytes.

A response is its status and its headers; no modelled filter reads a body.
-/

namespace Myth

/-! ## Methods -/

/-- `hyper::Method`: the nine standard methods and any other token. -/
inductive Method where
  | get | post | put | delete | head | options | connect | patch | trace
  | extension (name : String)
  deriving DecidableEq, Repr

/-- `Method::as_str`. -/
def Method.asStr : Method → String
  | .get => "GET"
  | .post => "POST"
  | .put => "PUT"
  | .delete => "DELETE"
  | .head => "HEAD"
  | .options => "OPTIONS"
  | .connect => "CONNECT"
  | .patch => "PATCH"
  | .trace => "TRACE"
  | .extension name => name

/-! ## Headers -/

/-- `HeaderName`, in the lower-case form `http` normalises it to. -/
structure HeaderName where
  name : String
  deriving DecidableEq, Repr

/-- `HeaderValue`: the raw bytes of one header value. -/
structure HeaderValue where
  bytes : List UInt8
  deriving DecidableEq, Repr

/-- `HeaderMap`: every `(name, value)` pair in arrival order; a name may repeat. -/
def HeaderMap := List (HeaderName × HeaderValue)

instance : DecidableEq HeaderMap := inferInstanceAs (DecidableEq (List _))

def ORIGIN : HeaderName := ⟨"origin"⟩
def VARY : HeaderName := ⟨"vary"⟩
def ALLOW : HeaderName := ⟨"allow"⟩
def LOCATION : HeaderName := ⟨"location"⟩
def CONTENT_TYPE : HeaderName := ⟨"content-type"⟩
def IF_MODIFIED_SINCE : HeaderName := ⟨"if-modified-since"⟩
def X_CONTENT_TYPE_OPTIONS : HeaderName := ⟨"x-content-type-options"⟩
def ACCESS_CONTROL_ALLOW_ORIGIN : HeaderName := ⟨"access-control-allow-origin"⟩
def ACCESS_CONTROL_ALLOW_METHODS : HeaderName := ⟨"access-control-allow-methods"⟩
def ACCESS_CONTROL_ALLOW_HEADERS : HeaderName := ⟨"access-control-allow-headers"⟩
def ACCESS_CONTROL_ALLOW_CREDENTIALS : HeaderName := ⟨"access-control-allow-credentials"⟩
def ACCESS_CONTROL_EXPOSE_HEADERS : HeaderName := ⟨"access-control-expose-headers"⟩
def ACCESS_CONTROL_MAX_AGE : HeaderName := ⟨"access-control-max-age"⟩
def ACCESS_CONTROL_REQUEST_METHOD : HeaderName := ⟨"access-control-request-method"⟩
def ACCESS_CONTROL_REQUEST_HEADERS : HeaderName := ⟨"access-control-request-headers"⟩

/-- `HeaderMap::get`: the first value under `name`. -/
def HeaderMap.get (headers : HeaderMap) (name : HeaderName) : Option HeaderValue :=
  (List.find? (fun entry => entry.1 = name) headers).map Prod.snd

/-- `HeaderMap::get_all`: every value under `name`, in order. -/
def HeaderMap.getAll (headers : HeaderMap) (name : HeaderName) : List HeaderValue :=
  List.filterMap (fun entry => if entry.1 = name then some entry.2 else none) headers

/-- `HeaderMap::insert`: drops every value under `name`, then adds `value`. -/
def HeaderMap.insert (headers : HeaderMap) (name : HeaderName) (value : HeaderValue) :
    HeaderMap :=
  List.filter (fun entry => entry.1 ≠ name) headers ++ [(name, value)]

/-- `HeaderMap::append`: adds `value` after the values already under `name`. -/
def HeaderMap.append (headers : HeaderMap) (name : HeaderName) (value : HeaderValue) :
    HeaderMap :=
  List.append headers [(name, value)]

namespace HeaderMap

variable (headers : HeaderMap) (name name' : HeaderName) (value : HeaderValue)

theorem getAll_insert :
    (headers.insert name value).getAll name' = if name = name' then [value] else headers.getAll name' := by
  unfold getAll insert
  rw [List.filterMap_append]
  split_ifs with hn
  · subst hn
    induction headers with
    | nil => simp
    | cons e rest ih => by_cases h : e.1 = name <;> simp_all
  · induction headers with
    | nil => simp [hn]
    | cons e rest ih => by_cases h : e.1 = name <;> by_cases h' : e.1 = name' <;> simp_all

theorem getAll_append :
    (headers.append name value).getAll name' = headers.getAll name' ++ if name = name' then [value] else [] := by
  unfold getAll append
  split_ifs <;> simp [*]

end HeaderMap

/-- `http`'s visible-ASCII test behind `HeaderValue::to_str`. -/
def isVisibleAscii (b : UInt8) : Bool := b = 9 || (32 ≤ b && b < 127)

/-- `HeaderValue::to_str`: the value as text when every byte is visible ASCII. -/
def HeaderValue.toStr (value : HeaderValue) : Option String :=
  if value.bytes.all isVisibleAscii then
    some (String.mk (value.bytes.map fun b => Char.ofNat b.toNat))
  else none

/-- `http`'s test of the bytes `HeaderValue::try_from` accepts. -/
def isValidHeaderByte (b : UInt8) : Bool := b = 9 || (32 ≤ b && b ≠ 127)

/-- `HeaderValue::from_static`. -/
def HeaderValue.ofString (s : String) : HeaderValue := ⟨s.toUTF8.toList⟩

theorem byteArray_toList_loop (l : List UInt8) (i : Nat) (r : List UInt8) :
    ByteArray.toList.loop ⟨⟨l⟩⟩ i r = r.reverse ++ l.drop i := by
  obtain ⟨n, h⟩ : ∃ n, l.length - i = n := ⟨_, rfl⟩
  induction n generalizing i r with
  | zero =>
    rw [ByteArray.toList.loop, if_neg (by simp [ByteArray.size]; omega)]
    simp [List.drop_eq_nil_of_le (show l.length ≤ i by omega)]
  | succ n ih =>
    have hi : i < l.length := by omega
    rw [ByteArray.toList.loop, if_pos (by simpa [ByteArray.size] using hi), ih (i + 1) _ (by omega),
      List.drop_eq_getElem_cons hi, List.reverse_cons, List.append_assoc, List.singleton_append]
    congr
    simp [ByteArray.get!, Array.get!, Array.getD, hi]

/-- The bytes of `HeaderValue::from_static(s)` are the UTF-8 encoding of `s`. -/
theorem HeaderValue.ofString_eq (s : String) :
    HeaderValue.ofString s = ⟨s.data.flatMap String.utf8EncodeChar⟩ := by
  simp [HeaderValue.ofString, String.toUTF8, ByteArray.toList, byteArray_toList_loop]

/-- `mime::Mime`, by the type and subtype `Mime::from_str` reads, lower-cased. -/
structure Mime where
  type_ : String
  subtype : String
  deriving DecidableEq, Repr

/-! ## Requests and responses -/

/-- `Request`: the facts of one request the filters read. -/
structure Request where
  method : Method
  path : List UInt8
  headers : HeaderMap

/-- `Request::full_path`. -/
def Request.fullPath (request : Request) : List UInt8 := request.path

/-- `Request::header`. -/
def Request.header (request : Request) (name : HeaderName) : Option HeaderValue :=
  request.headers.get name

/-- `Request::header_all`. -/
def Request.headerAll (request : Request) (name : HeaderName) : List HeaderValue :=
  request.headers.getAll name

/-- `StatusCode`, by its number. -/
def StatusCode := Nat

instance : DecidableEq StatusCode := inferInstanceAs (DecidableEq Nat)

def StatusCode.OK : StatusCode := (200 : Nat)
def StatusCode.NO_CONTENT : StatusCode := (204 : Nat)
def StatusCode.NOT_MODIFIED : StatusCode := (304 : Nat)
def StatusCode.PERMANENT_REDIRECT : StatusCode := (308 : Nat)
def StatusCode.BAD_REQUEST : StatusCode := (400 : Nat)
def StatusCode.FORBIDDEN : StatusCode := (403 : Nat)
def StatusCode.NOT_FOUND : StatusCode := (404 : Nat)
def StatusCode.METHOD_NOT_ALLOWED : StatusCode := (405 : Nat)
def StatusCode.PAYLOAD_TOO_LARGE : StatusCode := (413 : Nat)
def StatusCode.UNSUPPORTED_MEDIA_TYPE : StatusCode := (415 : Nat)
def StatusCode.INTERNAL_SERVER_ERROR : StatusCode := (500 : Nat)

/-- `Response`: its status and its headers. -/
structure Response where
  status : StatusCode
  headers : HeaderMap

/-- `TEXT_PLAIN`, the content type of text responders. -/
def TEXT_PLAIN : HeaderValue := .ofString "text/plain; charset=utf-8"

/-- `default_response`: the status's reason phrase as text, with that status. -/
def defaultResponse (status : StatusCode) : Response := ⟨status, [(CONTENT_TYPE, TEXT_PLAIN)]⟩

/-- `Responder::with_header`, which replaces earlier values under the name. -/
def Response.withHeader (response : Response) (name : HeaderName) (value : HeaderValue) :
    Response :=
  { response with headers := response.headers.insert name value }

/-- `vary_origin`: appends `Vary: origin`. -/
def varyOrigin (headers : HeaderMap) : HeaderMap :=
  headers.append VARY (.ofString "origin")

end Myth
