import Myth.Utf8

/-!
# `decode_utf8_lossy` substitutes maximal subparts (`path.rs`)

`decoded_segment` reads every path segment with `decode_utf8_lossy`, which keeps each
well-formed character and puts one U+FFFD for each ill-formed stretch.  A stretch is
taken as long as it can be while it could still be the start of a character: at a
place where no character starts, the longest prefix that some bytes would complete
into a character, or a single byte where no prefix would (`MaximalSubpart`).
`LossyDecodes` is that specification, written over the shapes of `Utf8Char`; the
decoder meets it.

    utf8Next_refused           : where `utf8Next` refuses, it refuses on the byte after the
                                 prefix it drops, whatever follows that byte
    maximalSubpart_of_utf8Next : so what it drops is the maximal subpart, the only one
                                 (`MaximalSubpart.unique`)
    decodeUtf8Lossy_eq_mk_iff  : `decode_utf8_lossy` returns exactly the characters the
                                 specification reads
-/

namespace Myth

/-! ## The specification -/

/-- `pre` starts a well-formed character: some bytes complete it into one. -/
def CharPrefix (pre : List UInt8) : Prop := ∃ s n, Utf8Char (pre ++ s) n

/-- `pre` is the maximal subpart of an ill-formed sequence at the front of `bytes`: no
character starts `bytes`, and `pre` is the longest prefix of `bytes` that starts a
character, or its first byte where none does. -/
structure MaximalSubpart (pre bytes : List UInt8) : Prop where
  isPrefix : pre <+: bytes
  ne_nil : pre ≠ []
  starts : pre.length = 1 ∨ CharPrefix pre
  longest : ∀ p, p <+: bytes → pre.length < p.length → ¬CharPrefix p
  noChar : ∀ seq n, Utf8Char seq n → ¬seq <+: bytes

/-- Lossy decoding by maximal subparts: a character at the front is read, and a
maximal subpart at the front becomes one U+FFFD. -/
inductive LossyDecodes : List UInt8 → List Char → Prop
  | nil : LossyDecodes [] []
  | char {seq rest : List UInt8} {n : Nat} {cs : List Char} :
      Utf8Char seq n → LossyDecodes rest cs → LossyDecodes (seq ++ rest) (Char.ofNat n :: cs)
  | replace {pre rest : List UInt8} {cs : List Char} :
      MaximalSubpart pre (pre ++ rest) → LossyDecodes rest cs → LossyDecodes (pre ++ rest) ('�' :: cs)

theorem CharPrefix.of_append {p q : List UInt8} (h : CharPrefix (p ++ q)) : CharPrefix p := by
  obtain ⟨s, n, hc⟩ := h
  exact ⟨q ++ s, n, by rwa [← List.append_assoc]⟩

theorem Utf8Char.ne_nil {seq : List UInt8} {n : Nat} (h : Utf8Char seq n) : seq ≠ [] := by
  cases h <;> exact List.cons_ne_nil _ _

/-- Two maximal subparts of the same bytes are one. -/
theorem MaximalSubpart.unique {pre pre' bytes : List UInt8} (h : MaximalSubpart pre bytes)
    (h' : MaximalSubpart pre' bytes) : pre = pre' := by
  have shorter : ∀ {p q : List UInt8}, MaximalSubpart p bytes → MaximalSubpart q bytes →
      ¬p.length < q.length := by
    intro p q hp hq hlt
    have hq1 : q.length = 1 := hq.starts.resolve_right (hp.longest q hq.isPrefix hlt)
    exact hp.ne_nil (List.eq_nil_of_length_eq_zero (by omega))
  have hlen : pre.length = pre'.length := by
    have := shorter h h'
    have := shorter h' h
    omega
  exact List.IsPrefix.eq_of_length (List.prefix_of_prefix_length_le h.isPrefix h'.isPrefix hlen.le) hlen

/-! ## What the decoder refuses -/

/-- A prefix on every continuation of which the decoder refuses starts no character. -/
theorem not_charPrefix_of_refused {p : List UInt8} (h : ∀ x, ∃ r, utf8Next (p ++ x) = some (none, r)) :
    ¬CharPrefix p := by
  rintro ⟨s, n, hc⟩
  obtain ⟨r, hr⟩ := h s
  have hread := utf8Next_of_utf8Char hc []
  rw [List.append_nil, hr] at hread
  cases hread

theorem charPrefix_of_utf8Next {p : List UInt8} (s : List UInt8) {c : Char}
    (h : utf8Next (p ++ s) = some (some c, [])) : CharPrefix p := by
  obtain ⟨seq, n, hc, hs, -⟩ := utf8Char_of_utf8Next h
  rw [List.append_nil] at hs
  exact ⟨s, n, hs ▸ hc⟩

/-- Where `utf8Next` refuses, it drops a prefix that is one byte or starts a character,
and refuses on the byte after it whatever follows. -/
theorem utf8Next_refused {bytes rest : List UInt8} (h : utf8Next bytes = some (none, rest)) :
    ∃ pre, bytes = pre ++ rest ∧ pre ≠ [] ∧ (pre.length = 1 ∨ CharPrefix pre) ∧
      ∀ b r, rest = b :: r → ∀ x, utf8Next (pre ++ b :: x) = some (none, b :: x) := by
  have hc : isCont 0x80 = true := rfl
  have dropped : ∀ {r : List UInt8}, ((none, r) : Option Char × List UInt8) = (none, rest) → r = rest :=
    fun h => (Prod.mk.inj h).2
  have read : ∀ {x : Char} {r : List UInt8}, ((some x, r) : Option Char × List UInt8) ≠ (none, rest) := by
    simp
  have last : ∀ {pre : List UInt8} (b r), ([] : List UInt8) = b :: r → ∀ x,
      utf8Next (pre ++ b :: x) = some (none, b :: x) := by
    intro _ _ _ h
    cases h
  match bytes, h with
  | b0 :: r, h =>
    simp only [utf8Next, Option.some.injEq, UInt8.lt_iff_toNat_lt, UInt8.le_iff_toNat_le, UInt8.reduceToNat] at h
    by_cases h1 : b0.toNat < 128
    · rw [if_pos h1] at h
      exact absurd h read
    rw [if_neg h1] at h
    by_cases h2 : 194 ≤ b0.toNat ∧ b0.toNat ≤ 223
    · rw [if_pos h2] at h
      obtain _ | ⟨b1, r⟩ := r
      · obtain rfl := dropped h
        exact ⟨[b0], rfl, List.cons_ne_nil _ _, .inl rfl, last⟩
      dsimp only at h
      split_ifs at h with k1
      · exact absurd h read
      obtain rfl := dropped h
      refine ⟨[b0], rfl, List.cons_ne_nil _ _, .inl rfl, ?_⟩
      rintro _ _ ⟨⟩ x
      simp only [List.cons_append, List.nil_append, utf8Next, UInt8.lt_iff_toNat_lt, UInt8.le_iff_toNat_le,
        UInt8.reduceToNat, h1, h2, k1, ite_true, ite_false, and_self, Bool.false_eq_true]
    rw [if_neg h2] at h
    by_cases h3 : 224 ≤ b0.toNat ∧ b0.toNat ≤ 239
    · rw [if_pos h3] at h
      obtain _ | ⟨b1, r⟩ := r
      · obtain rfl := dropped h
        exact ⟨[b0], rfl, List.cons_ne_nil _ _, .inl rfl, last⟩
      dsimp only at h
      by_cases k1 : secondOk3 b0 b1 = true
      · have starts : CharPrefix [b0, b1] := charPrefix_of_utf8Next [0x80] (by
          simp only [List.cons_append, List.nil_append, utf8Next, UInt8.lt_iff_toNat_lt, UInt8.le_iff_toNat_le,
            UInt8.reduceToNat, h1, h2, h3, k1, hc, ite_true, ite_false, and_self, Bool.false_eq_true]
          rfl)
        rw [if_pos k1] at h
        obtain _ | ⟨b2, r⟩ := r
        · obtain rfl := dropped h
          exact ⟨[b0, b1], rfl, List.cons_ne_nil _ _, .inr starts, last⟩
        dsimp only at h
        split_ifs at h with k2
        · exact absurd h read
        obtain rfl := dropped h
        refine ⟨[b0, b1], rfl, List.cons_ne_nil _ _, .inr starts, ?_⟩
        rintro _ _ ⟨⟩ x
        simp only [List.cons_append, List.nil_append, utf8Next, UInt8.lt_iff_toNat_lt, UInt8.le_iff_toNat_le,
          UInt8.reduceToNat, h1, h2, h3, k1, k2, ite_true, ite_false, and_self, Bool.false_eq_true]
      rw [if_neg k1] at h
      obtain rfl := dropped h
      refine ⟨[b0], rfl, List.cons_ne_nil _ _, .inl rfl, ?_⟩
      rintro _ _ ⟨⟩ x
      simp only [List.cons_append, List.nil_append, utf8Next, UInt8.lt_iff_toNat_lt, UInt8.le_iff_toNat_le,
        UInt8.reduceToNat, h1, h2, h3, k1, ite_true, ite_false, and_self, Bool.false_eq_true]
    rw [if_neg h3] at h
    by_cases h4 : 240 ≤ b0.toNat ∧ b0.toNat ≤ 244
    · rw [if_pos h4] at h
      obtain _ | ⟨b1, r⟩ := r
      · obtain rfl := dropped h
        exact ⟨[b0], rfl, List.cons_ne_nil _ _, .inl rfl, last⟩
      dsimp only at h
      by_cases k1 : secondOk4 b0 b1 = true
      · have starts : CharPrefix [b0, b1] := charPrefix_of_utf8Next [0x80, 0x80] (by
          simp only [List.cons_append, List.nil_append, utf8Next, UInt8.lt_iff_toNat_lt, UInt8.le_iff_toNat_le,
            UInt8.reduceToNat, h1, h2, h3, h4, k1, hc, ite_true, ite_false, and_self, Bool.false_eq_true]
          rfl)
        rw [if_pos k1] at h
        obtain _ | ⟨b2, r⟩ := r
        · obtain rfl := dropped h
          exact ⟨[b0, b1], rfl, List.cons_ne_nil _ _, .inr starts, last⟩
        dsimp only at h
        by_cases k2 : isCont b2 = true
        · have starts : CharPrefix [b0, b1, b2] := charPrefix_of_utf8Next [0x80] (by
            simp only [List.cons_append, List.nil_append, utf8Next, UInt8.lt_iff_toNat_lt, UInt8.le_iff_toNat_le,
              UInt8.reduceToNat, h1, h2, h3, h4, k1, k2, hc, ite_true, ite_false, and_self, Bool.false_eq_true]
            rfl)
          rw [if_pos k2] at h
          obtain _ | ⟨b3, r⟩ := r
          · obtain rfl := dropped h
            exact ⟨[b0, b1, b2], rfl, List.cons_ne_nil _ _, .inr starts, last⟩
          dsimp only at h
          split_ifs at h with k3
          · exact absurd h read
          obtain rfl := dropped h
          refine ⟨[b0, b1, b2], rfl, List.cons_ne_nil _ _, .inr starts, ?_⟩
          rintro _ _ ⟨⟩ x
          simp only [List.cons_append, List.nil_append, utf8Next, UInt8.lt_iff_toNat_lt, UInt8.le_iff_toNat_le,
            UInt8.reduceToNat, h1, h2, h3, h4, k1, k2, k3, ite_true, ite_false, and_self, Bool.false_eq_true]
        rw [if_neg k2] at h
        obtain rfl := dropped h
        refine ⟨[b0, b1], rfl, List.cons_ne_nil _ _, .inr starts, ?_⟩
        rintro _ _ ⟨⟩ x
        simp only [List.cons_append, List.nil_append, utf8Next, UInt8.lt_iff_toNat_lt, UInt8.le_iff_toNat_le,
          UInt8.reduceToNat, h1, h2, h3, h4, k1, k2, ite_true, ite_false, and_self, Bool.false_eq_true]
      rw [if_neg k1] at h
      obtain rfl := dropped h
      refine ⟨[b0], rfl, List.cons_ne_nil _ _, .inl rfl, ?_⟩
      rintro _ _ ⟨⟩ x
      simp only [List.cons_append, List.nil_append, utf8Next, UInt8.lt_iff_toNat_lt, UInt8.le_iff_toNat_le,
        UInt8.reduceToNat, h1, h2, h3, h4, k1, ite_true, ite_false, and_self, Bool.false_eq_true]
    rw [if_neg h4] at h
    obtain rfl := dropped h
    refine ⟨[b0], rfl, List.cons_ne_nil _ _, .inl rfl, ?_⟩
    rintro b _ rfl x
    simp only [List.cons_append, List.nil_append, utf8Next, UInt8.lt_iff_toNat_lt, UInt8.le_iff_toNat_le,
      UInt8.reduceToNat, h1, h2, h3, h4, ite_true, ite_false, and_self, Bool.false_eq_true]

/-- **What `utf8Next` drops is the maximal subpart.** -/
theorem maximalSubpart_of_utf8Next {bytes rest : List UInt8} (h : utf8Next bytes = some (none, rest)) :
    ∃ pre, bytes = pre ++ rest ∧ MaximalSubpart pre bytes := by
  obtain ⟨pre, rfl, hne, hstarts, hnext⟩ := utf8Next_refused h
  refine ⟨pre, rfl, List.prefix_append _ _, hne, hstarts, ?_, ?_⟩
  · rintro p hp hlen hc
    obtain ⟨q, rfl⟩ := List.prefix_of_prefix_length_le (List.prefix_append pre rest) hp hlen.le
    obtain ⟨t, ht⟩ := (List.prefix_append_right_inj pre).mp hp
    obtain _ | ⟨b, q⟩ := q
    · simp at hlen
    have hc' : CharPrefix (pre ++ [b] ++ q) := by rwa [List.append_assoc, List.singleton_append]
    refine not_charPrefix_of_refused (fun x => ⟨b :: x, ?_⟩) hc'.of_append
    rw [List.append_assoc, List.singleton_append]
    exact hnext b _ ht.symm x
  · rintro seq n hc ⟨r, hr⟩
    rw [← hr, utf8Next_of_utf8Char hc r] at h
    cases h

/-- A maximal subpart is what `utf8Next` drops. -/
theorem utf8Next_of_maximalSubpart {pre rest : List UInt8} (h : MaximalSubpart pre (pre ++ rest)) :
    utf8Next (pre ++ rest) = some (none, rest) := by
  rcases hn : utf8Next (pre ++ rest) with _ | ⟨_ | c, r⟩
  · exact absurd (List.append_eq_nil.mp (utf8Next_eq_none.mp hn)).1 h.ne_nil
  · obtain ⟨pre', hb, h'⟩ := maximalSubpart_of_utf8Next hn
    obtain rfl := h.unique h'
    rw [List.append_cancel_left hb]
  · obtain ⟨seq, n, hc, hb, -⟩ := utf8Char_of_utf8Next hn
    exact absurd ⟨r, hb.symm⟩ (h.noChar seq n hc)

/-! ## The decoder meets the specification -/

theorem utf8Decode_succ_fst {bytes rest : List UInt8} {c : Option Char} (fuel : Nat)
    (hn : utf8Next bytes = some (c, rest)) :
    (utf8Decode (fuel + 1) bytes).1 = c.getD '�' :: (utf8Decode fuel rest).1 := by
  rcases hd : utf8Decode fuel rest with ⟨cs, bad⟩
  simp only [utf8Decode, hn, hd]

theorem lossyDecodes_utf8Decode (fuel : Nat) (bytes : List UInt8) (hfuel : bytes.length ≤ fuel) :
    LossyDecodes bytes (utf8Decode fuel bytes).1 := by
  induction fuel generalizing bytes with
  | zero =>
    obtain rfl := List.eq_nil_of_length_eq_zero (Nat.le_zero.mp hfuel)
    exact .nil
  | succ fuel ih =>
    rcases hn : utf8Next bytes with _ | ⟨_ | c, rest⟩
    · obtain rfl := utf8Next_eq_none.mp hn
      exact .nil
    · obtain ⟨pre, rfl, hm⟩ := maximalSubpart_of_utf8Next hn
      have hpre := List.length_pos.mpr hm.ne_nil
      rw [utf8Decode_succ_fst fuel hn]
      exact .replace hm (ih rest (by simp only [List.length_append] at hfuel; omega))
    · obtain ⟨seq, n, hc, rfl, rfl⟩ := utf8Char_of_utf8Next hn
      have hseq := List.length_pos.mpr hc.ne_nil
      rw [utf8Decode_succ_fst fuel hn]
      exact .char hc (ih rest (by simp only [List.length_append] at hfuel; omega))

theorem utf8Decode_of_lossyDecodes {bytes : List UInt8} {cs : List Char} (h : LossyDecodes bytes cs)
    (fuel : Nat) (hfuel : bytes.length ≤ fuel) : (utf8Decode fuel bytes).1 = cs := by
  induction h generalizing fuel with
  | nil => cases fuel <;> rfl
  | @char seq rest n cs hc _ ih =>
    have hseq := List.length_pos.mpr hc.ne_nil
    obtain ⟨fuel, rfl⟩ : ∃ f, fuel = f + 1 := ⟨fuel - 1, by simp only [List.length_append] at hfuel; omega⟩
    rw [utf8Decode_succ_fst fuel (utf8Next_of_utf8Char hc rest), ih fuel (by simp only [List.length_append] at hfuel; omega)]
    rfl
  | @replace pre rest cs hm _ ih =>
    have hpre := List.length_pos.mpr hm.ne_nil
    obtain ⟨fuel, rfl⟩ : ∃ f, fuel = f + 1 := ⟨fuel - 1, by simp only [List.length_append] at hfuel; omega⟩
    rw [utf8Decode_succ_fst fuel (utf8Next_of_maximalSubpart hm), ih fuel (by simp only [List.length_append] at hfuel; omega)]
    rfl

/-- **`decode_utf8_lossy` substitutes maximal subparts.**  For all bytes and all
characters, `decode_utf8_lossy` returns the characters exactly when they are the lossy
reading by maximal subparts: each well-formed character at the front read as itself,
and each maximal subpart of an ill-formed sequence read as one U+FFFD. -/
theorem decodeUtf8Lossy_eq_mk_iff (bytes : List UInt8) (cs : List Char) :
    decodeUtf8Lossy bytes = String.mk cs ↔ LossyDecodes bytes cs := by
  constructor
  · intro h
    have hcs : (utf8Decode bytes.length bytes).1 = cs := congrArg String.data h
    exact hcs ▸ lossyDecodes_utf8Decode _ bytes le_rfl
  · intro h
    exact congrArg String.mk (utf8Decode_of_lossyDecodes h _ le_rfl)

/-- A lossy reading with no U+FFFD is of an encoding. -/
theorem LossyDecodes.eq_flatMap {bytes : List UInt8} {cs : List Char} (h : LossyDecodes bytes cs)
    (hcs : '�' ∉ cs) : bytes = cs.flatMap String.utf8EncodeChar := by
  induction h with
  | nil => rfl
  | char hc _ ih =>
    rw [List.flatMap_cons, hc.eq_utf8EncodeChar, ih (fun h => hcs (List.mem_cons_of_mem _ h))]
  | replace _ _ _ => exact absurd (List.mem_cons_self _ _) hcs

/-- So `decode_utf8_lossy` returns a text without U+FFFD exactly on its encoding. -/
theorem decodeUtf8Lossy_eq_iff {t : String} (ht : '�' ∉ t.data) (bytes : List UInt8) :
    decodeUtf8Lossy bytes = t ↔ bytes = t.data.flatMap String.utf8EncodeChar := by
  constructor
  · intro h
    have hcs : (utf8Decode bytes.length bytes).1 = t.data := congrArg String.data h
    exact (hcs ▸ lossyDecodes_utf8Decode _ bytes le_rfl).eq_flatMap ht
  · rintro rfl
    exact decodeUtf8Lossy_flatMap _

end Myth
