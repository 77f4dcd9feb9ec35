import Myth.Path

/-!
# The path's UTF-8 decoding is exact (`path.rs`)

`decoded_segment` reads a percent-decoded segment with `decode_utf8_lossy`, and
`sanitize_path` reads the rest of the path with `decode_utf8`; both run `utf8Next`,
which reads one character or one ill-formed sequence.  Here the decoders are held to
the encoder, `String.utf8EncodeChar`, through the byte shapes of one character
(`Utf8Char`: one to four bytes, a lead byte whose marker gives the length and
continuation bytes under `0x80`, in the shortest form for the code point): the
encoder writes a shape (`utf8Char_utf8EncodeChar`), a shape is fixed by its code point
(`Utf8Char.unique`), and `utf8Next` reads a character exactly off a shape
(`utf8Next_of_utf8Char`, `utf8Char_of_utf8Next`).

    decodeUtf8_eq_some_iff : `decode_utf8` accepts exactly the encodings of texts, and
                             returns the text
    decodeUtf8Lossy_flatMap : `decode_utf8_lossy` returns the text of an encoding
-/

namespace Myth

/-! ## Bytes as numbers -/

theorem UInt8.lt_iff_toNat_lt {a b : UInt8} : a < b ↔ a.toNat < b.toNat := Iff.rfl

theorem UInt8.le_iff_toNat_le {a b : UInt8} : a ≤ b ↔ a.toNat ≤ b.toNat := Iff.rfl

theorem UInt8.eq_iff_toNat_eq {a b : UInt8} : a = b ↔ a.toNat = b.toNat :=
  ⟨congrArg _, UInt8.toNat.inj⟩

theorem UInt8.toNat_or (a b : UInt8) : (a ||| b).toNat = a.toNat ||| b.toNat := BitVec.toNat_or ..

theorem UInt32.le_iff_toNat_le {a b : UInt32} : a ≤ b ↔ a.toNat ≤ b.toNat := Iff.rfl

/-- The payload masks of the encoder and the decoder, as remainders. -/
theorem maskByte_toNat :
    (∀ b : UInt8, (b &&& 0x1F).toNat = b.toNat % 32) ∧ (∀ b : UInt8, (b &&& 0x0F).toNat = b.toNat % 16) ∧
    (∀ b : UInt8, (b &&& 0x07).toNat = b.toNat % 8) ∧ ∀ b : UInt8, (b &&& 0x3F).toNat = b.toNat % 64 := by
  simp only [UInt8.and_toNat]
  exact ⟨fun _ => Nat.and_pow_two_sub_one_eq_mod _ 5, fun _ => Nat.and_pow_two_sub_one_eq_mod _ 4,
    fun _ => Nat.and_pow_two_sub_one_eq_mod _ 3, fun _ => Nat.and_pow_two_sub_one_eq_mod _ 6⟩

/-- A marker set above a payload is added to it. -/
theorem lor_marker : (∀ k, k < 32 → k ||| 0xC0 = k + 0xC0) ∧ (∀ k, k < 16 → k ||| 0xE0 = k + 0xE0) ∧
    (∀ k, k < 8 → k ||| 0xF0 = k + 0xF0) ∧ ∀ k, k < 64 → k ||| 0x80 = k + 0x80 := by
  decide

/-- The bytes `utf8EncodeChar` writes, as numbers: a payload under the marker of a lead
byte, or six bits under the `0x80` of a continuation byte. -/
theorem encodeByte_toNat (b : UInt8) :
    (b &&& 0x1f ||| 0xc0).toNat = b.toNat % 32 + 0xC0 ∧ (b &&& 0x0f ||| 0xe0).toNat = b.toNat % 16 + 0xE0 ∧
    (b &&& 0x07 ||| 0xf0).toNat = b.toNat % 8 + 0xF0 ∧ (b &&& 0x3f ||| 0x80).toNat = b.toNat % 64 + 0x80 := by
  obtain ⟨m2, m3, m4, mc⟩ := maskByte_toNat
  obtain ⟨l2, l3, l4, lc⟩ := lor_marker
  simp only [UInt8.toNat_or, m2, m3, m4, mc, UInt8.reduceToNat]
  exact ⟨l2 _ (Nat.mod_lt _ (by decide)), l3 _ (Nat.mod_lt _ (by decide)), l4 _ (Nat.mod_lt _ (by decide)),
    lc _ (Nat.mod_lt _ (by decide))⟩

theorem toUInt8_shiftRight_toNat (v : UInt32) (k : Nat) (hk : k < 32) :
    (v >>> UInt32.ofNat k).toUInt8.toNat = (v.toNat >>> k) % 256 := by
  have hk' : ((UInt32.ofNat k) % 32).toNat = k := by
    rw [UInt32.toNat_mod, UInt32.toNat_ofNat_of_lt (Nat.lt_trans hk (by decide))]
    exact Nat.mod_eq_of_lt hk
  show (v.toBitVec >>> ((UInt32.ofNat k) % 32).toNat).toNat % 256 = _
  rw [BitVec.toNat_ushiftRight, hk']
  rfl

theorem isCont_iff {b : UInt8} : isCont b = true ↔ 0x80 ≤ b.toNat ∧ b.toNat ≤ 0xBF := by
  simp only [isCont, Bool.and_eq_true, decide_eq_true_eq, UInt8.le_iff_toNat_le, UInt8.reduceToNat]

theorem secondOk3_iff {b0 b1 : UInt8} :
    secondOk3 b0 b1 = true ↔ 0x80 ≤ b1.toNat ∧ b1.toNat ≤ 0xBF ∧
      (b0.toNat = 0xE0 → 0xA0 ≤ b1.toNat) ∧ (b0.toNat = 0xED → b1.toNat ≤ 0x9F) := by
  simp only [secondOk3, UInt8.eq_iff_toNat_eq, UInt8.reduceToNat]
  split_ifs <;> simp only [isCont_iff, Bool.and_eq_true, decide_eq_true_eq, UInt8.le_iff_toNat_le,
    UInt8.reduceToNat] <;> omega

theorem secondOk4_iff {b0 b1 : UInt8} :
    secondOk4 b0 b1 = true ↔ 0x80 ≤ b1.toNat ∧ b1.toNat ≤ 0xBF ∧
      (b0.toNat = 0xF0 → 0x90 ≤ b1.toNat) ∧ (b0.toNat = 0xF4 → b1.toNat ≤ 0x8F) := by
  simp only [secondOk4, UInt8.eq_iff_toNat_eq, UInt8.reduceToNat]
  split_ifs <;> simp only [isCont_iff, Bool.and_eq_true, decide_eq_true_eq, UInt8.le_iff_toNat_le,
    UInt8.reduceToNat] <;> omega

/-- The base-64 digits of a number put back together. -/
theorem digits64 (n : Nat) : n / 4096 * 4096 + n / 64 % 64 * 64 + n % 64 = n ∧
    n / 262144 * 262144 + n / 4096 % 64 * 4096 + n / 64 % 64 * 64 + n % 64 = n := by
  have h64 := Nat.div_add_mod' n 64
  have h4096 : n / 4096 * 64 + n / 64 % 64 = n / 64 := by
    rw [show 4096 = 64 * 64 from rfl, ← Nat.div_div_eq_div_mul, Nat.div_add_mod']
  have h262144 : n / 262144 * 64 + n / 4096 % 64 = n / 4096 := by
    rw [show 262144 = 4096 * 64 from rfl, ← Nat.div_div_eq_div_mul, Nat.div_add_mod']
  constructor
  · calc n / 4096 * 4096 + n / 64 % 64 * 64 + n % 64 = (n / 4096 * 64 + n / 64 % 64) * 64 + n % 64 := by
          simp only [Nat.add_mul, Nat.mul_assoc, Nat.reduceMul]
      _ = n := by rw [h4096, h64]
  · calc n / 262144 * 262144 + n / 4096 % 64 * 4096 + n / 64 % 64 * 64 + n % 64
        = ((n / 262144 * 64 + n / 4096 % 64) * 64 + n / 64 % 64) * 64 + n % 64 := by
          simp only [Nat.add_mul, Nat.mul_assoc, Nat.reduceMul]
      _ = n := by rw [h262144, h4096, h64]

/-- A marker added to a payload leaves the payload's remainder. -/
theorem marker_mod (x : Nat) : (x + 0xC0) % 32 = x % 32 ∧ (x + 0xE0) % 16 = x % 16 ∧
    (x + 0xF0) % 8 = x % 8 ∧ (x + 0x80) % 64 = x % 64 := by
  omega

/-! ## One character -/

/-- The shapes of one UTF-8 character: the bits of its code point, six to a
continuation byte under `0x80` and the rest under the marker of the lead byte (`0xC0`,
`0xE0` or `0xF0` for two, three or four bytes), in the fewest bytes that hold the code
point, with no code point in `0xD800`–`0xDFFF` and none from `0x110000` on. -/
inductive Utf8Char : List UInt8 → Nat → Prop where
  | one {b0 : UInt8} : b0.toNat < 0x80 → Utf8Char [b0] b0.toNat
  | two {b0 b1 : UInt8} {x0 x1 : Nat} : b0.toNat = x0 + 0xC0 → b1.toNat = x1 + 0x80 → x1 < 64 →
      0x80 ≤ x0 * 64 + x1 → x0 * 64 + x1 < 0x800 → Utf8Char [b0, b1] (x0 * 64 + x1)
  | three {b0 b1 b2 : UInt8} {x0 x1 x2 : Nat} : b0.toNat = x0 + 0xE0 → b1.toNat = x1 + 0x80 →
      b2.toNat = x2 + 0x80 → x1 < 64 → x2 < 64 → 0x800 ≤ x0 * 4096 + x1 * 64 + x2 →
      x0 * 4096 + x1 * 64 + x2 < 0x10000 →
      (x0 * 4096 + x1 * 64 + x2 < 0xD800 ∨ 0xE000 ≤ x0 * 4096 + x1 * 64 + x2) →
      Utf8Char [b0, b1, b2] (x0 * 4096 + x1 * 64 + x2)
  | four {b0 b1 b2 b3 : UInt8} {x0 x1 x2 x3 : Nat} : b0.toNat = x0 + 0xF0 → b1.toNat = x1 + 0x80 →
      b2.toNat = x2 + 0x80 → b3.toNat = x3 + 0x80 → x1 < 64 → x2 < 64 → x3 < 64 →
      0x10000 ≤ x0 * 262144 + x1 * 4096 + x2 * 64 + x3 → x0 * 262144 + x1 * 4096 + x2 * 64 + x3 < 0x110000 →
      Utf8Char [b0, b1, b2, b3] (x0 * 262144 + x1 * 4096 + x2 * 64 + x3)

/-- A shape spells a valid code point. -/
theorem Utf8Char.isValidChar {seq : List UInt8} {n : Nat} (h : Utf8Char seq n) : n.isValidChar := by
  cases h <;> (unfold Nat.isValidChar; omega)

/-- The bytes of a shape are fixed by the code point it spells. -/
theorem Utf8Char.unique {seq seq' : List UInt8} {n n' : Nat} (h : Utf8Char seq n) (h' : Utf8Char seq' n')
    (hn : n = n') : seq = seq' := by
  cases h <;> cases h' <;> simp only [List.cons.injEq, UInt8.eq_iff_toNat_eq, and_true, reduceCtorEq,
    and_false] <;> omega

/-- `utf8Next` reads a character off every shape. -/
theorem utf8Next_of_utf8Char {seq : List UInt8} {n : Nat} (h : Utf8Char seq n) (rest : List UInt8) :
    utf8Next (seq ++ rest) = some (some (Char.ofNat n), rest) := by
  obtain ⟨m2, m3, m4, mc⟩ := maskByte_toNat
  cases h with
  | one h0 =>
    simp only [List.cons_append, List.nil_append, utf8Next, UInt8.lt_iff_toNat_lt, UInt8.reduceToNat, if_pos h0]
  | @two b0 b1 x0 x1 h0 h1 hx1 hlo hhi =>
    simp only [List.cons_append, List.nil_append, utf8Next, UInt8.lt_iff_toNat_lt, UInt8.le_iff_toNat_le,
      UInt8.reduceToNat, isCont_iff, contBits, m2, mc, h0, h1, (marker_mod _).1, (marker_mod _).2.2.2,
      Nat.mod_eq_of_lt hx1, Nat.mod_eq_of_lt (show x0 < 32 by omega)]
    rw [if_neg (by omega), if_pos (by omega), if_pos (by omega)]
  | @three b0 b1 b2 x0 x1 x2 h0 h1 h2 hx1 hx2 hlo hhi hsur =>
    simp only [List.cons_append, List.nil_append, utf8Next, UInt8.lt_iff_toNat_lt, UInt8.le_iff_toNat_le,
      UInt8.reduceToNat, isCont_iff, secondOk3_iff, contBits, m3, mc, h0, h1, h2, (marker_mod _).2.1,
      (marker_mod _).2.2.2, Nat.mod_eq_of_lt hx1, Nat.mod_eq_of_lt hx2, Nat.mod_eq_of_lt (show x0 < 16 by omega)]
    rw [if_neg (by omega), if_neg (by omega), if_pos (by omega), if_pos (by omega), if_pos (by omega)]
  | @four b0 b1 b2 b3 x0 x1 x2 x3 h0 h1 h2 h3 hx1 hx2 hx3 hlo hhi =>
    simp only [List.cons_append, List.nil_append, utf8Next, UInt8.lt_iff_toNat_lt, UInt8.le_iff_toNat_le,
      UInt8.reduceToNat, isCont_iff, secondOk4_iff, contBits, m4, mc, h0, h1, h2, h3, (marker_mod _).2.2.1,
      (marker_mod _).2.2.2, Nat.mod_eq_of_lt hx1, Nat.mod_eq_of_lt hx2, Nat.mod_eq_of_lt hx3,
      Nat.mod_eq_of_lt (show x0 < 8 by omega)]
    rw [if_neg (by omega), if_neg (by omega), if_neg (by omega), if_pos (by omega), if_pos (by omega),
      if_pos (by omega), if_pos (by omega)]

/-- A byte in the range of a marker is its payload under that marker. -/
theorem eq_payload_add_marker {a : Nat} : (0xC0 ≤ a → a < 0xE0 → a = a % 32 + 0xC0) ∧
    (0xE0 ≤ a → a < 0xF0 → a = a % 16 + 0xE0) ∧ (0xF0 ≤ a → a < 0xF8 → a = a % 8 + 0xF0) ∧
    (0x80 ≤ a → a < 0xC0 → a = a % 64 + 0x80) := by
  omega

/-- And only off a shape: the character read is the one a shape at the front spells. -/
theorem utf8Char_of_utf8Next {bytes rest : List UInt8} {c : Char} (h : utf8Next bytes = some (some c, rest)) :
    ∃ seq n, Utf8Char seq n ∧ bytes = seq ++ rest ∧ c = Char.ofNat n := by
  obtain ⟨m2, m3, m4, mc⟩ := maskByte_toNat
  have found : ∀ {x : Char} {r : List UInt8}, ((some x, r) : Option Char × List UInt8) = (some c, rest) →
      c = x ∧ rest = r := by simp [eq_comm]
  have refused : ∀ {r : List UInt8}, ((none, r) : Option Char × List UInt8) ≠ (some c, rest) := by simp
  match bytes, h with
  | b0 :: r, h =>
    simp only [utf8Next, Option.some.injEq, UInt8.lt_iff_toNat_lt, UInt8.le_iff_toNat_le, UInt8.reduceToNat,
      isCont_iff, secondOk3_iff, secondOk4_iff, contBits, m2, m3, m4, mc] at h
    by_cases h1 : b0.toNat < 128
    · rw [if_pos h1] at h
      obtain ⟨rfl, rfl⟩ := found h
      exact ⟨[b0], _, .one h1, rfl, rfl⟩
    rw [if_neg h1] at h
    by_cases h2 : 194 ≤ b0.toNat ∧ b0.toNat ≤ 223
    · rw [if_pos h2] at h
      obtain _ | ⟨b1, r⟩ := r
      · exact absurd h refused
      dsimp only at h
      split_ifs at h with k1
      · obtain ⟨rfl, rfl⟩ := found h
        exact ⟨[b0, b1], _, .two (eq_payload_add_marker.1 (by omega) (by omega))
          (eq_payload_add_marker.2.2.2 k1.1 (by omega)) (Nat.mod_lt _ (by decide)) (by omega) (by omega), rfl, rfl⟩
      · exact absurd h refused
    rw [if_neg h2] at h
    by_cases h3 : 224 ≤ b0.toNat ∧ b0.toNat ≤ 239
    · rw [if_pos h3] at h
      obtain _ | ⟨b1, _ | ⟨b2, r⟩⟩ := r
      · exact absurd h refused
      · dsimp only at h
        split_ifs at h <;> exact absurd h refused
      dsimp only at h
      split_ifs at h with k1 k2
      · obtain ⟨rfl, rfl⟩ := found h
        exact ⟨[b0, b1, b2], _, .three (eq_payload_add_marker.2.1 h3.1 (by omega))
          (eq_payload_add_marker.2.2.2 k1.1 (by omega)) (eq_payload_add_marker.2.2.2 k2.1 (by omega))
          (Nat.mod_lt _ (by decide)) (Nat.mod_lt _ (by decide)) (by omega) (by omega) (by omega), rfl, rfl⟩
      all_goals exact absurd h refused
    rw [if_neg h3] at h
    by_cases h4 : 240 ≤ b0.toNat ∧ b0.toNat ≤ 244
    · rw [if_pos h4] at h
      obtain _ | ⟨b1, _ | ⟨b2, _ | ⟨b3, r⟩⟩⟩ := r
      · exact absurd h refused
      · dsimp only at h
        split_ifs at h <;> exact absurd h refused
      · dsimp only at h
        split_ifs at h <;> exact absurd h refused
      dsimp only at h
      split_ifs at h with k1 k2 k3
      · obtain ⟨rfl, rfl⟩ := found h
        exact ⟨[b0, b1, b2, b3], _, .four (eq_payload_add_marker.2.2.1 h4.1 (by omega))
          (eq_payload_add_marker.2.2.2 k1.1 (by omega)) (eq_payload_add_marker.2.2.2 k2.1 (by omega))
          (eq_payload_add_marker.2.2.2 k3.1 (by omega)) (Nat.mod_lt _ (by decide)) (Nat.mod_lt _ (by decide))
          (Nat.mod_lt _ (by decide)) (by omega) (by omega), rfl, rfl⟩
      all_goals exact absurd h refused
    rw [if_neg h4] at h
    exact absurd h refused

/-- The encoding of every character has the shape of its code point. -/
theorem utf8Char_utf8EncodeChar (c : Char) : Utf8Char (String.utf8EncodeChar c) c.toNat := by
  have hvalid : c.toNat < 0xd800 ∨ (0xdfff < c.toNat ∧ c.toNat < 0x110000) := c.valid
  have hv : c.val.toNat = c.toNat := rfl
  have h0 : c.val.toUInt8.toNat = c.toNat % 256 := rfl
  have h6 : (c.val >>> 6).toUInt8.toNat = c.toNat / 64 % 256 :=
    (toUInt8_shiftRight_toNat c.val 6 (by decide)).trans (by rw [Nat.shiftRight_eq_div_pow]; rfl)
  have h12 : (c.val >>> 12).toUInt8.toNat = c.toNat / 4096 % 256 :=
    (toUInt8_shiftRight_toNat c.val 12 (by decide)).trans (by rw [Nat.shiftRight_eq_div_pow]; rfl)
  have h18 : (c.val >>> 18).toUInt8.toNat = c.toNat / 262144 % 256 :=
    (toUInt8_shiftRight_toNat c.val 18 (by decide)).trans (by rw [Nat.shiftRight_eq_div_pow]; rfl)
  have of_eq : ∀ {seq : List UInt8} {m : Nat}, Utf8Char seq m → m = c.toNat → Utf8Char seq c.toNat :=
    fun h hm => hm ▸ h
  simp only [String.utf8EncodeChar, UInt32.le_iff_toNat_le, UInt32.reduceToNat, hv]
  split_ifs with h1 h2 h3
  · exact of_eq (.one (by omega)) (by omega)
  · obtain ⟨e0, -, -, -⟩ := encodeByte_toNat ((c.val >>> 6).toUInt8)
    obtain ⟨-, -, -, e1⟩ := encodeByte_toNat c.val.toUInt8
    rw [h6, Nat.mod_mod_of_dvd _ (by decide),
      Nat.mod_eq_of_lt (Nat.div_lt_of_lt_mul (by omega))] at e0
    rw [h0, Nat.mod_mod_of_dvd _ (by decide)] at e1
    have hval := Nat.div_add_mod' c.toNat 64
    exact of_eq (.two e0 e1 (Nat.mod_lt _ (by decide)) (by rw [hval]; omega) (by rw [hval]; omega)) hval
  · obtain ⟨-, e0, -, -⟩ := encodeByte_toNat ((c.val >>> 12).toUInt8)
    obtain ⟨-, -, -, e1⟩ := encodeByte_toNat ((c.val >>> 6).toUInt8)
    obtain ⟨-, -, -, e2⟩ := encodeByte_toNat c.val.toUInt8
    rw [h12, Nat.mod_mod_of_dvd _ (by decide),
      Nat.mod_eq_of_lt (Nat.div_lt_of_lt_mul (by omega))] at e0
    rw [h6, Nat.mod_mod_of_dvd _ (by decide)] at e1
    rw [h0, Nat.mod_mod_of_dvd _ (by decide)] at e2
    have hval := (digits64 c.toNat).1
    exact of_eq (.three e0 e1 e2 (Nat.mod_lt _ (by decide)) (Nat.mod_lt _ (by decide)) (by rw [hval]; omega)
      (by rw [hval]; omega) (by rw [hval]; omega)) hval
  · obtain ⟨-, -, e0, -⟩ := encodeByte_toNat ((c.val >>> 18).toUInt8)
    obtain ⟨-, -, -, e1⟩ := encodeByte_toNat ((c.val >>> 12).toUInt8)
    obtain ⟨-, -, -, e2⟩ := encodeByte_toNat ((c.val >>> 6).toUInt8)
    obtain ⟨-, -, -, e3⟩ := encodeByte_toNat c.val.toUInt8
    rw [h18, Nat.mod_mod_of_dvd _ (by decide),
      Nat.mod_eq_of_lt (Nat.div_lt_of_lt_mul (by omega))] at e0
    rw [h12, Nat.mod_mod_of_dvd _ (by decide)] at e1
    rw [h6, Nat.mod_mod_of_dvd _ (by decide)] at e2
    rw [h0, Nat.mod_mod_of_dvd _ (by decide)] at e3
    have hval := (digits64 c.toNat).2
    exact of_eq (.four e0 e1 e2 e3 (Nat.mod_lt _ (by decide)) (Nat.mod_lt _ (by decide))
      (Nat.mod_lt _ (by decide)) (by rw [hval]; omega) (by rw [hval]; omega)) hval

/-- A shape is the encoding of the character it spells. -/
theorem Utf8Char.eq_utf8EncodeChar {seq : List UInt8} {n : Nat} (h : Utf8Char seq n) :
    String.utf8EncodeChar (Char.ofNat n) = seq := by
  have hc : (Char.ofNat n).toNat = n := by rw [Char.ofNat, dif_pos h.isValidChar]; rfl
  exact (utf8Char_utf8EncodeChar (Char.ofNat n)).unique h hc

/-- One step of the decoder reads back the character whose encoding starts the bytes. -/
theorem utf8Next_utf8EncodeChar (c : Char) (rest : List UInt8) :
    utf8Next (String.utf8EncodeChar c ++ rest) = some (some c, rest) := by
  rw [utf8Next_of_utf8Char (utf8Char_utf8EncodeChar c), Char.ofNat_toNat]

/-- A step that reads a character consumes that character's encoding. -/
theorem eq_utf8EncodeChar_of_utf8Next {bytes rest : List UInt8} {c : Char}
    (h : utf8Next bytes = some (some c, rest)) : bytes = String.utf8EncodeChar c ++ rest := by
  obtain ⟨seq, n, hseq, rfl, rfl⟩ := utf8Char_of_utf8Next h
  rw [hseq.eq_utf8EncodeChar]

/-! ## Texts -/

/-- With a step for every byte, the decoder reads the characters of an encoding back and
finds nothing ill-formed. -/
theorem utf8Decode_flatMap (cs : List Char) (fuel : Nat)
    (hfuel : (cs.flatMap String.utf8EncodeChar).length ≤ fuel) :
    utf8Decode fuel (cs.flatMap String.utf8EncodeChar) = (cs, false) := by
  induction cs generalizing fuel with
  | nil => cases fuel <;> rfl
  | cons c cs ih =>
    simp only [List.flatMap_cons, List.length_append, String.length_utf8EncodeChar] at hfuel ⊢
    obtain ⟨fuel, rfl⟩ : ∃ f, fuel = f + 1 := ⟨fuel - 1, by have := c.utf8Size_pos; omega⟩
    have hrest := ih fuel (by have := c.utf8Size_pos; omega)
    simp only [utf8Decode, utf8Next_utf8EncodeChar, hrest, Option.getD_some, Option.isNone_some, Bool.or_false]

theorem utf8Next_eq_none {bytes : List UInt8} : utf8Next bytes = none ↔ bytes = [] := by
  cases bytes <;> simp [utf8Next]

/-- What the decoder reads without finding anything ill-formed is an encoding. -/
theorem eq_flatMap_of_utf8Decode {fuel : Nat} {bytes : List UInt8} {cs : List Char}
    (hfuel : bytes.length ≤ fuel) (h : utf8Decode fuel bytes = (cs, false)) :
    bytes = cs.flatMap String.utf8EncodeChar := by
  induction fuel generalizing bytes cs with
  | zero =>
    obtain rfl := List.eq_nil_of_length_eq_zero (Nat.le_zero.mp hfuel)
    obtain rfl : cs = [] := (Prod.mk.inj h).1.symm
    rfl
  | succ fuel ih =>
    rcases hn : utf8Next bytes with _ | ⟨_ | c, rest⟩
    · obtain rfl := utf8Next_eq_none.mp hn
      obtain rfl : cs = [] := by simpa [utf8Decode, hn, eq_comm] using h
      rfl
    · rcases hd : utf8Decode fuel rest with ⟨cs', bad⟩
      simp [utf8Decode, hn, hd] at h
    · rcases hd : utf8Decode fuel rest with ⟨cs', bad⟩
      simp only [utf8Decode, hn, hd, Option.getD_some, Option.isNone_some, Bool.or_false, Prod.mk.injEq] at h
      obtain ⟨rfl, rfl⟩ := h
      have hbytes := eq_utf8EncodeChar_of_utf8Next hn
      have hlen := congrArg List.length hbytes
      simp only [List.length_append, String.length_utf8EncodeChar] at hlen
      rw [hbytes, ih (by have := c.utf8Size_pos; omega) hd, List.flatMap_cons]

/-- `decode_utf8` reads every encoding back. -/
theorem decodeUtf8_flatMap (cs : List Char) : decodeUtf8 (cs.flatMap String.utf8EncodeChar) = some cs := by
  rw [decodeUtf8, utf8Decode_flatMap cs _ (le_refl _)]
  rfl

/-- `decode_utf8` accepts exactly the UTF-8 encodings of texts, and returns the text. -/
theorem decodeUtf8_eq_some_iff (bytes : List UInt8) (cs : List Char) :
    decodeUtf8 bytes = some cs ↔ bytes = cs.flatMap String.utf8EncodeChar := by
  constructor
  · intro h
    rcases hd : utf8Decode bytes.length bytes with ⟨cs', _ | _⟩ <;> simp [decodeUtf8, hd] at h
    exact eq_flatMap_of_utf8Decode (le_refl _) (h ▸ hd)
  · rintro rfl
    exact decodeUtf8_flatMap cs

/-- `decode_utf8_lossy` returns the text of every encoding. -/
theorem decodeUtf8Lossy_flatMap (cs : List Char) :
    decodeUtf8Lossy (cs.flatMap String.utf8EncodeChar) = String.mk cs := by
  rw [decodeUtf8Lossy, utf8Decode_flatMap cs _ (le_refl _)]

end Myth
