import Mathlib.Data.List.Basic
import NimMarkdown.Proofs.Encoding

/-!
# What can be decoded

The decoder accepts the encodings of texts and nothing else (`decode_eq_ok_iff`). What
it has read is at any time the encoding of the characters that are done, followed by
the first bytes of one more character (`Decoder.HasRead`). That these bytes begin a
character is said by what may follow them (`Begins`): any bytes that complete them
within their bounds make up the encoding of a character. So only a first byte has to
be looked at; every further byte is one of those that may follow.
-/

namespace NimMarkdown.Utf8

variable {b : Byte} {d d' : Decoder} {p : Partial} {read tail bytes : List Byte} {t : Text}

/-- The bytes are those that are missing of a character. -/
structure Completes (p : Partial) (bytes : List Byte) : Prop where
  length : bytes.length = p.missing
  first : ∀ b, bytes.head? = some b → p.low ≤ b.toNat ∧ b.toNat ≤ p.high
  rest : ∀ b ∈ bytes.tail, 0x80 ≤ b.toNat ∧ b.toNat ≤ 0xBF

/-- With the bytes that are missing, the ones that have been read are those of a character. -/
structure Begins (p : Partial) (tail : List Byte) : Prop where
  missing : 1 ≤ p.missing
  completed : ∀ bytes, Completes p bytes →
    encodeChar (Char.ofNat (addBits p.bits bytes)) = tail ++ bytes

/-- What the decoder has read: the bytes of the characters that are done, and the first bytes of
a character that is not. -/
structure Decoder.HasRead (d : Decoder) (read : List Byte) : Prop where
  between : d.pending = none → read = encode d.done.reverse
  within : ∀ p, d.pending = some p → ∃ tail, read = encode d.done.reverse ++ tail ∧ Begins p tail

/-! ## The first byte of a character -/

theorem toNat_ofNat {n : Nat} (h : n < 0xD800 ∨ 0xDFFF < n ∧ n < 0x110000) :
    (Char.ofNat n).toNat = n := by
  have valid : n.isValidChar := h
  rw [Char.ofNat, dif_pos valid]
  rfl

theorem eq_toUInt8 {n : Nat} (h : b.toNat = n) : n.toUInt8 = b := by
  apply UInt8.toNat_inj.1
  have := b.toNat_lt
  rw [toNat_toUInt8 (by omega), h]

/-- Three ways in which a first byte says how many are missing, and what the bits are. -/
theorem start_cases (h : start b = some p) :
    (∃ k, b.toNat = 0xC0 + k ∧ 2 ≤ k ∧ k < 32 ∧
      p = { first := b, length := 1, missing := 1, bits := k }) ∨
    (∃ k, b.toNat = 0xE0 + k ∧ k < 16 ∧
      p = { first := b, length := 1, missing := 2, bits := k,
            low := if k = 0 then 0xA0 else 0x80, high := if k = 13 then 0x9F else 0xBF }) ∨
    ∃ k, b.toNat = 0xF0 + k ∧ k < 5 ∧
      p = { first := b, length := 1, missing := 3, bits := k,
            low := if k = 0 then 0x90 else 0x80, high := if k = 4 then 0x8F else 0xBF } := by
  have range : 0xC2 ≤ b.toNat ∧ b.toNat ≤ 0xF4 := by
    unfold start at h
    simp only [Bool.and_eq_true, decide_eq_true_eq, beq_iff_eq] at h
    split_ifs at h <;> omega
  by_cases two : b.toNat < 0xE0
  · obtain ⟨k, hk⟩ := Nat.exists_eq_add_of_le (show 0xC0 ≤ b.toNat by omega)
    refine .inl ⟨k, hk, by omega, by omega, ?_⟩
    exact Option.some.inj (h.symm.trans (start_two hk (by omega) (by omega)))
  by_cases three : b.toNat < 0xF0
  · obtain ⟨k, hk⟩ := Nat.exists_eq_add_of_le (show 0xE0 ≤ b.toNat by omega)
    refine .inr (.inl ⟨k, hk, by omega, ?_⟩)
    exact Option.some.inj (h.symm.trans (start_three hk (by omega)))
  · obtain ⟨k, hk⟩ := Nat.exists_eq_add_of_le (show 0xF0 ≤ b.toNat by omega)
    refine .inr (.inr ⟨k, hk, by omega, ?_⟩)
    exact Option.some.inj (h.symm.trans (start_four hk (by omega)))

theorem encodeChar_one (h : b.toNat < 0x80) : encodeChar (Char.ofNat b.toNat) = [b] := by
  have valid := toNat_ofNat (n := b.toNat) (by omega)
  simp only [encodeChar, valid, if_pos h, eq_toUInt8 rfl]

theorem encodeChar_two {k : Nat} {c : Byte} (hb : b.toNat = 0xC0 + k) (low : 2 ≤ k) (high : k < 32)
    (hc : 0x80 ≤ c.toNat ∧ c.toNat ≤ 0xBF) :
    encodeChar (Char.ofNat (k * 64 + (c.toNat - 0x80))) = [b, c] := by
  have valid := toNat_ofNat (n := k * 64 + (c.toNat - 0x80)) (by omega)
  simp only [encodeChar, valid]
  rw [if_neg (by omega), if_pos (by omega), eq_toUInt8 (b := b) (by omega),
    eq_toUInt8 (b := c) (by omega)]

theorem encodeChar_three {k : Nat} {c e : Byte} (hb : b.toNat = 0xE0 + k) (high : k < 16)
    (hc : (if k = 0 then 0xA0 else 0x80) ≤ c.toNat ∧ c.toNat ≤ if k = 13 then 0x9F else 0xBF)
    (he : 0x80 ≤ e.toNat ∧ e.toNat ≤ 0xBF) :
    encodeChar (Char.ofNat ((k * 64 + (c.toNat - 0x80)) * 64 + (e.toNat - 0x80))) = [b, c, e] := by
  have bounds : 0x80 ≤ c.toNat ∧ c.toNat ≤ 0xBF ∧ (k = 0 → 0xA0 ≤ c.toNat) ∧
      (k = 13 → c.toNat ≤ 0x9F) := by
    split_ifs at hc <;> omega
  clear hc
  have valid := toNat_ofNat (n := (k * 64 + (c.toNat - 0x80)) * 64 + (e.toNat - 0x80)) (by omega)
  simp only [encodeChar, valid]
  rw [if_neg (by omega), if_neg (by omega), if_pos (by omega), eq_toUInt8 (b := b) (by omega),
    eq_toUInt8 (b := c) (by omega), eq_toUInt8 (b := e) (by omega)]

theorem encodeChar_four {k : Nat} {c e f : Byte} (hb : b.toNat = 0xF0 + k) (high : k < 5)
    (hc : (if k = 0 then 0x90 else 0x80) ≤ c.toNat ∧ c.toNat ≤ if k = 4 then 0x8F else 0xBF)
    (he : 0x80 ≤ e.toNat ∧ e.toNat ≤ 0xBF) (hf : 0x80 ≤ f.toNat ∧ f.toNat ≤ 0xBF) :
    encodeChar (Char.ofNat (((k * 64 + (c.toNat - 0x80)) * 64 + (e.toNat - 0x80)) * 64 +
      (f.toNat - 0x80))) = [b, c, e, f] := by
  have bounds : 0x80 ≤ c.toNat ∧ c.toNat ≤ 0xBF ∧ (k = 0 → 0x90 ≤ c.toNat) ∧
      (k = 4 → c.toNat ≤ 0x8F) := by
    split_ifs at hc <;> omega
  clear hc
  have valid := toNat_ofNat (n := ((k * 64 + (c.toNat - 0x80)) * 64 + (e.toNat - 0x80)) * 64 +
    (f.toNat - 0x80)) (by omega)
  simp only [encodeChar, valid]
  rw [if_neg (by omega), if_neg (by omega), if_neg (by omega), eq_toUInt8 (b := b) (by omega),
    eq_toUInt8 (b := c) (by omega), eq_toUInt8 (b := e) (by omega), eq_toUInt8 (b := f) (by omega)]

/-- A first byte begins a character. -/
theorem begins_start (h : start b = some p) : Begins p [b] := by
  obtain ⟨k, hb, low, high, rfl⟩ | ⟨k, hb, high, rfl⟩ | ⟨k, hb, high, rfl⟩ := start_cases h
  · refine ⟨Nat.le_refl 1, fun bytes done => ?_⟩
    obtain ⟨c, rfl⟩ := List.length_eq_one_iff.1 done.length
    exact encodeChar_two hb low high (done.first c rfl)
  · refine ⟨by simp, fun bytes done => ?_⟩
    obtain ⟨c, e, rfl⟩ := List.length_eq_two.1 done.length
    exact encodeChar_three hb high (done.first c rfl) (done.rest e (by simp))
  · refine ⟨by simp, fun bytes done => ?_⟩
    obtain ⟨c, e, f, rfl⟩ := List.length_eq_three.1 done.length
    exact encodeChar_four hb high (done.first c rfl) (done.rest e (by simp)) (done.rest f (by simp))

/-! ## A step of the decoder -/

/-- One more byte of a character that is not its last one. -/
theorem Begins.more (h : Begins p tail) (low : p.low ≤ b.toNat) (high : b.toNat ≤ p.high)
    (hm : p.missing ≠ 1) :
    Begins { first := p.first, length := p.length + 1, missing := p.missing - 1,
             bits := p.bits * 64 + (b.toNat - 0x80) } (tail ++ [b]) := by
  have missing := h.missing
  refine ⟨show 1 ≤ p.missing - 1 by omega, fun bytes done => ?_⟩
  have length : bytes.length = p.missing - 1 := done.length
  have behind : Completes p (b :: bytes) := by
    refine ⟨by rw [List.length_cons]; omega, fun c hc => ?_, fun c hc => ?_⟩
    · obtain rfl := Option.some.inj hc
      exact ⟨low, high⟩
    · cases bytes with
      | nil => cases hc
      | cons e bytes =>
        rcases List.mem_cons.1 hc with rfl | hc
        · exact done.first c rfl
        · exact done.rest c hc
  rw [← addBits_cons, h.completed _ behind, List.append_assoc, List.singleton_append]

/-- The last byte of a character. -/
theorem Begins.last (h : Begins p tail) (low : p.low ≤ b.toNat) (high : b.toNat ≤ p.high)
    (hm : p.missing = 1) :
    encodeChar (Char.ofNat (p.bits * 64 + (b.toNat - 0x80))) = tail ++ [b] := by
  refine h.completed [b] ⟨hm.symm, fun c hc => ?_, nofun⟩
  obtain rfl := Option.some.inj hc
  exact ⟨low, high⟩

theorem encode_append_char (t : Text) (c : Char) :
    encode (t ++ [c]) = encode t ++ encodeChar c := by
  simp [encode]

theorem step_hasRead (h : d.HasRead read) (hs : step d b = .ok d') : d'.HasRead (read ++ [b]) := by
  unfold step at hs
  split at hs
  · next hp =>
    have before := h.between hp
    split at hs
    · next ascii =>
      cases hs
      refine ⟨fun _ => ?_, nofun⟩
      rw [List.reverse_cons, encode_append_char, encodeChar_one ascii, before]
    · split at hs
      · next p hstart =>
        cases hs
        refine ⟨nofun, fun q hq => ⟨[b], by rw [before], ?_⟩⟩
        exact Option.some.inj hq ▸ begins_start hstart
      · cases hs
  · next p hp =>
    obtain ⟨tail, before, begins⟩ := h.within p hp
    split at hs
    · next range =>
      obtain ⟨low, high⟩ : p.low ≤ b.toNat ∧ b.toNat ≤ p.high := by simpa using range
      dsimp only at hs
      split at hs
      · next hm =>
        cases hs
        refine ⟨fun _ => ?_, nofun⟩
        rw [List.reverse_cons, encode_append_char, begins.last low high (by simpa using hm), before,
          List.append_assoc]
      · next hm =>
        cases hs
        refine ⟨nofun, fun q hq => ⟨tail ++ [b], by rw [before, List.append_assoc], ?_⟩⟩
        exact Option.some.inj hq ▸ begins.more low high (by simpa using hm)
    · cases hs

theorem foldlM_hasRead (h : d.HasRead read) (hs : bytes.foldlM step d = .ok d') :
    d'.HasRead (read ++ bytes) := by
  induction bytes generalizing d read with
  | nil =>
    cases hs
    rwa [List.append_nil]
  | cons b bytes ih =>
    cases hb : step d b with
    | error e =>
      rw [List.foldlM_cons, hb] at hs
      cases hs
    | ok next =>
      rw [foldlM_of_step hb] at hs
      have done := ih (step_hasRead h hb) hs
      rwa [List.append_assoc, List.singleton_append] at done

/-- **The encodings of texts** are what can be decoded. -/
theorem decode_eq_ok_iff : decode bytes = .ok t ↔ bytes = encode t := by
  constructor
  · intro h
    have fresh : Decoder.HasRead {} [] := ⟨fun _ => rfl, nofun⟩
    unfold decode at h
    cases hf : bytes.foldlM step {} with
    | error e =>
      rw [hf] at h
      cases h
    | ok d =>
      rw [hf] at h
      have read := foldlM_hasRead fresh hf
      change finish d = .ok t at h
      unfold finish at h
      split at h
      · next hp =>
        cases h
        exact read.between hp
      · cases h
  · rintro rfl
    exact decode_encode t

end NimMarkdown.Utf8
