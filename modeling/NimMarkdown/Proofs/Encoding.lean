import Mathlib.Tactic.IntervalCases
import NimMarkdown.Text.Lines
import NimMarkdown.Text.Utf8

/-!
# Reading back what was encoded

The decoder takes the bytes of a character from a state between two characters to
the next such state, with the character added (`foldlM_encodeChar`): the first byte
tells how many are missing and where the second one may lie, and every further
byte adds six bits. So a text is read back (`decode_encode`).
-/

namespace NimMarkdown.Utf8

variable {b : Byte} {d : Decoder} {p : Partial}

theorem toNat_toUInt8 {n : Nat} (h : n < 256) : n.toUInt8.toNat = n := by
  simp [Nat.toUInt8, Nat.mod_eq_of_lt h]

theorem foldlM_of_step {d' : Decoder} (h : step d b = .ok d') (bytes : List Byte) :
    (b :: bytes).foldlM step d = bytes.foldlM step d' := by
  rw [List.foldlM_cons, h]
  rfl

theorem step_ascii (hd : d.pending = none) (h : b.toNat < 0x80) :
    step d b = .ok { done := Char.ofNat b.toNat :: d.done, position := d.position + 1 } := by
  rw [step, hd]
  exact if_pos h

theorem step_start (hd : d.pending = none) (h : 0x80 ≤ b.toNat) (hs : start b = some p) :
    step d b = .ok { d with position := d.position + 1, pending := some p } := by
  simp [step, hd, Nat.not_lt.2 h, hs]

theorem step_more (hd : d.pending = some p) (low : p.low ≤ b.toNat) (high : b.toNat ≤ p.high)
    (hm : p.missing ≠ 1) :
    step d b = .ok { d with
      position := d.position + 1
      pending := some { first := p.first, length := p.length + 1, missing := p.missing - 1,
                        bits := p.bits * 64 + (b.toNat - 0x80) } } := by
  simp [step, hd, low, high, hm]

theorem step_last (hd : d.pending = some p) (low : p.low ≤ b.toNat) (high : b.toNat ≤ p.high)
    (hm : p.missing = 1) :
    step d b = .ok { done := Char.ofNat (p.bits * 64 + (b.toNat - 0x80)) :: d.done,
                     position := d.position + 1 } := by
  simp [step, hd, low, high, hm]

/-- The first byte of two. -/
theorem start_two {k : Nat} (hb : b.toNat = 0xC0 + k) (low : 2 ≤ k) (high : k < 32) :
    start b = some { first := b, length := 1, missing := 1, bits := k } := by
  simp [start, hb]
  omega

/-- The first byte of three bounds the second one. -/
theorem start_three {k : Nat} (hb : b.toNat = 0xE0 + k) (high : k < 16) :
    start b = some { first := b, length := 1, missing := 2, bits := k,
                     low := if k = 0 then 0xA0 else 0x80,
                     high := if k = 13 then 0x9F else 0xBF } := by
  interval_cases k <;> simp [start, hb]

/-- The first byte of four bounds the second one. -/
theorem start_four {k : Nat} (hb : b.toNat = 0xF0 + k) (high : k < 5) :
    start b = some { first := b, length := 1, missing := 3, bits := k,
                     low := if k = 0 then 0x90 else 0x80,
                     high := if k = 4 then 0x8F else 0xBF } := by
  interval_cases k <;> simp [start, hb]

/-- No character lies between the surrogates, and none beyond the last plane. -/
theorem toNat_char (c : Char) : c.toNat < 0xD800 ∨ 0xDFFF < c.toNat ∧ c.toNat < 0x110000 :=
  c.valid

/-- The bits of a character, with those that further bytes add. -/
def addBits (bits : Nat) (bytes : List Byte) : Nat :=
  bytes.foldl (fun bits b => bits * 64 + (b.toNat - 0x80)) bits

theorem addBits_cons (bits : Nat) (b : Byte) (bytes : List Byte) :
    addBits bits (b :: bytes) = addBits (bits * 64 + (b.toNat - 0x80)) bytes := by
  rw [addBits, addBits, List.foldl_cons]

/-- The bytes that are missing of a character complete it. -/
theorem foldlM_missing (done : List Char) (position : Nat) {bytes : List Byte}
    (hm : p.missing = bytes.length)
    (first : ∀ b, bytes.head? = some b → p.low ≤ b.toNat ∧ b.toNat ≤ p.high)
    (rest : ∀ b ∈ bytes.tail, 0x80 ≤ b.toNat ∧ b.toNat ≤ 0xBF) (hn : bytes ≠ []) :
    ∃ next, bytes.foldlM step { done, position, pending := some p } =
      .ok { done := Char.ofNat (addBits p.bits bytes) :: done, position := next } := by
  induction bytes generalizing p position with
  | nil => exact (hn rfl).elim
  | cons b bytes ih =>
    obtain ⟨low, high⟩ := first b rfl
    cases bytes with
    | nil =>
      refine ⟨position + 1, ?_⟩
      rw [foldlM_of_step (step_last rfl low high hm)]
      rfl
    | cons c bytes =>
      have next : ∀ x ∈ c :: bytes, 0x80 ≤ x.toNat ∧ x.toNat ≤ 0xBF := rest
      rw [foldlM_of_step (step_more rfl low high (by simp [hm])), addBits_cons]
      let more : Partial := { first := p.first, length := p.length + 1, missing := p.missing - 1,
                              bits := p.bits * 64 + (b.toNat - 0x80) }
      exact ih (p := more) (position + 1) (by simp [more, hm])
        (fun x hx => next x (List.mem_of_head? hx))
        (fun x hx => next x (List.mem_of_mem_tail hx)) (List.cons_ne_nil c bytes)

/-- A first byte, and those that are missing behind it. -/
theorem foldlM_start (done : List Char) (position : Nat) {bytes : List Byte}
    (hb : 0x80 ≤ b.toNat) (hs : start b = some p) (hm : p.missing = bytes.length)
    (first : ∀ b, bytes.head? = some b → p.low ≤ b.toNat ∧ b.toNat ≤ p.high)
    (rest : ∀ b ∈ bytes.tail, 0x80 ≤ b.toNat ∧ b.toNat ≤ 0xBF) (hn : bytes ≠ []) :
    ∃ next, (b :: bytes).foldlM step { done, position } =
      .ok { done := Char.ofNat (addBits p.bits bytes) :: done, position := next } := by
  rw [foldlM_of_step (step_start rfl hb hs)]
  exact foldlM_missing done (position + 1) hm first rest hn

/-- The bytes of a character are read as that character. -/
theorem foldlM_encodeChar (done : List Char) (position : Nat) (c : Char) :
    ∃ next, (encodeChar c).foldlM step { done, position } =
      .ok { done := c :: done, position := next } := by
  have valid := toNat_char c
  have char : Char.ofNat c.toNat = c := Char.ofNat_toNat c
  unfold encodeChar
  generalize c.toNat = n at valid char
  dsimp only
  have tail (k : Nat) : (0x80 + k % 64).toUInt8.toNat = 0x80 + k % 64 := toNat_toUInt8 (by omega)
  split_ifs with h1 h2 h3
  · have hb : n.toUInt8.toNat = n := toNat_toUInt8 (by omega)
    refine ⟨position + 1, ?_⟩
    rw [foldlM_of_step (step_ascii rfl (by omega)), hb, char]
    rfl
  · have hb : (0xC0 + n / 64).toUInt8.toNat = 0xC0 + n / 64 := toNat_toUInt8 (by omega)
    have bits : n / 64 * 64 + n % 64 = n := by omega
    have hc := tail n
    generalize (0x80 + n % 64).toUInt8 = c₁ at hc ⊢
    have read : ∃ next, [_, c₁].foldlM step { done, position } =
        .ok { done := _, position := next } :=
      foldlM_start done position (by omega) (start_two hb (by omega) (by omega)) rfl
        (by simp; omega) (by simp) (by simp)
    simpa [addBits, hc, bits, char] using read
  · have hb : (0xE0 + n / 4096).toUInt8.toNat = 0xE0 + n / 4096 := toNat_toUInt8 (by omega)
    have bits : (n / 4096 * 64 + n / 64 % 64) * 64 + n % 64 = n := by omega
    have hc := tail (n / 64)
    have hd := tail n
    generalize (0x80 + n / 64 % 64).toUInt8 = c₁ at hc ⊢
    generalize (0x80 + n % 64).toUInt8 = c₂ at hd ⊢
    have read : ∃ next, [_, c₁, c₂].foldlM step { done, position } =
        .ok { done := _, position := next } :=
      foldlM_start done position (by omega) (start_three hb (by omega)) rfl
        (by simp; split_ifs <;> omega) (by simp; omega) (by simp)
    simpa [addBits, hc, hd, bits, char] using read
  · have hb : (0xF0 + n / 262144).toUInt8.toNat = 0xF0 + n / 262144 := toNat_toUInt8 (by omega)
    have bits : ((n / 262144 * 64 + n / 4096 % 64) * 64 + n / 64 % 64) * 64 + n % 64 = n := by omega
    have hc := tail (n / 4096)
    have hd := tail (n / 64)
    have he := tail n
    generalize (0x80 + n / 4096 % 64).toUInt8 = c₁ at hc ⊢
    generalize (0x80 + n / 64 % 64).toUInt8 = c₂ at hd ⊢
    generalize (0x80 + n % 64).toUInt8 = c₃ at he ⊢
    have read : ∃ next, [_, c₁, c₂, c₃].foldlM step { done, position } =
        .ok { done := _, position := next } :=
      foldlM_start done position (by omega) (start_four hb (by omega)) rfl
        (by simp; split_ifs <;> omega) (by simp; omega) (by simp)
    simpa [addBits, hc, hd, he, bits, char] using read

theorem foldlM_encode (done : List Char) (position : Nat) (t : Text) :
    ∃ next, (encode t).foldlM step { done, position } =
      .ok { done := t.reverse ++ done, position := next } := by
  induction t generalizing done position with
  | nil => exact ⟨position, rfl⟩
  | cons c t ih =>
    obtain ⟨middle, hc⟩ := foldlM_encodeChar done position c
    obtain ⟨next, ht⟩ := ih (c :: done) middle
    refine ⟨next, ?_⟩
    rw [encode, List.flatMap_cons, List.foldlM_append, hc]
    exact ht.trans (by simp)

/-- **A text is read back** from its bytes. -/
theorem decode_encode (t : Text) : decode (encode t) = .ok t := by
  obtain ⟨next, h⟩ := foldlM_encode [] 0 t
  rw [decode, h]
  exact congrArg Except.ok (by simp)

end NimMarkdown.Utf8
