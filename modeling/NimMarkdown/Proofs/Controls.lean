import NimMarkdown.Text.Control

/-!
# Texts without control sequences

A text is shown as it is exactly if it has no control sequence
(`withoutControls_eq_self_iff`). What the reader keeps beside the text tells whether the
text goes on as the rest of a control sequence; the three kinds of characters in one are
apart, so there is only one way to read it.
-/

namespace NimMarkdown.Text

variable {t : Text} {c : Char}

/-- An escape character, a bracket, parameters, intermediate characters, and a final one. -/
def IsControl (seq : Text) : Prop :=
  ∃ parameters intermediates final,
    seq = escapeChar :: '[' :: (parameters ++ (intermediates ++ [final])) ∧
      (∀ c ∈ parameters, isParameter c = true) ∧ (∀ c ∈ intermediates, isIntermediate c = true) ∧
      isFinal final = true

/-- What the reader has at the beginning of a text. -/
def plain (t : Text) : Plain := t.foldr Plain.cons {}

theorem plain_cons (c : Char) (t : Text) : plain (c :: t) = (plain t).cons c := rfl

theorem withoutControls_eq (t : Text) : t.withoutControls = (plain t).text := rfl

theorem withoutControls_cons (c : Char) (t : Text) : withoutControls (c :: t) =
    if c = escapeChar then (plain t).afterEscape.getD (c :: t.withoutControls)
    else c :: t.withoutControls := rfl

/-! ## The rest of a control sequence -/

/-- The three kinds of characters are apart. -/
theorem apart_of_parameter (h : isParameter c = true) :
    isIntermediate c = false ∧ isFinal c = false := by
  simp only [isParameter, isIntermediate, isFinal, Bool.and_eq_true, Bool.and_eq_false_iff,
    decide_eq_true_eq, decide_eq_false_iff_not, Char.le_def, UInt32.le_iff_toNat_le] at h ⊢
  have bounds : ('0'.val.toNat = 48 ∧ '?'.val.toNat = 63) ∧ ' '.val.toNat = 32 ∧
      '/'.val.toNat = 47 ∧ '@'.val.toNat = 64 ∧ '~'.val.toNat = 126 := by decide
  omega

theorem afterParameters_isSome : (plain t).afterParameters.isSome = true ↔
    ∃ intermediates final, intermediates ++ [final] <+: t ∧
      (∀ c ∈ intermediates, isIntermediate c = true) ∧ isFinal final = true := by
  induction t with
  | nil => simp [plain]
  | cons c t ih =>
    have after : (plain (c :: t)).afterParameters =
        if isFinal c then some (plain t).text
        else if isIntermediate c then (plain t).afterParameters else none := rfl
    rw [after]
    constructor
    · intro h
      split at h
      · next final => exact ⟨[], c, by simp, nofun, final⟩
      · split at h
        · next between =>
          obtain ⟨intermediates, final, begins, all, hf⟩ := ih.1 h
          exact ⟨c :: intermediates, final, (List.prefix_cons_inj c).2 begins,
            List.forall_mem_cons.2 ⟨between, all⟩, hf⟩
        · cases h
    · rintro ⟨intermediates, final, begins, all, hf⟩
      cases intermediates with
      | nil =>
        obtain ⟨rfl, -⟩ := List.cons_prefix_cons.1 begins
        rw [if_pos hf]
        rfl
      | cons first intermediates =>
        obtain ⟨rfl, behind⟩ := List.cons_prefix_cons.1 begins
        rw [List.forall_mem_cons] at all
        rw [if_pos all.1]
        split
        · rfl
        · exact ih.2 ⟨intermediates, final, behind, all.2, hf⟩

theorem afterBracket_isSome : (plain t).afterBracket.isSome = true ↔
    ∃ parameters intermediates final, parameters ++ (intermediates ++ [final]) <+: t ∧
      (∀ c ∈ parameters, isParameter c = true) ∧ (∀ c ∈ intermediates, isIntermediate c = true) ∧
      isFinal final = true := by
  induction t with
  | nil => simp [plain]
  | cons c t ih =>
    have after : (plain (c :: t)).afterBracket =
        if isParameter c then (plain t).afterBracket else (plain (c :: t)).afterParameters := rfl
    rw [after]
    constructor
    · intro h
      split at h
      · next parameter =>
        obtain ⟨parameters, intermediates, final, begins, all, rest⟩ := ih.1 h
        exact ⟨c :: parameters, intermediates, final, (List.prefix_cons_inj c).2 begins,
          List.forall_mem_cons.2 ⟨parameter, all⟩, rest⟩
      · obtain ⟨intermediates, final, begins, rest⟩ := afterParameters_isSome.1 h
        exact ⟨[], intermediates, final, begins, nofun, rest⟩
    · rintro ⟨parameters, intermediates, final, begins, all, between, hf⟩
      cases parameters with
      | cons first parameters =>
        obtain ⟨rfl, behind⟩ := List.cons_prefix_cons.1 begins
        rw [List.forall_mem_cons] at all
        rw [if_pos all.1]
        exact ih.2 ⟨parameters, intermediates, final, behind, all.2, between, hf⟩
      | nil =>
        -- The first character is an intermediate or the final one, so it is no parameter.
        have first : isParameter c = false := by
          refine Bool.eq_false_iff.2 fun parameter => ?_
          obtain ⟨apart, apart'⟩ := apart_of_parameter parameter
          cases intermediates with
          | nil =>
            obtain ⟨rfl, -⟩ := List.cons_prefix_cons.1 begins
            rw [apart'] at hf
            cases hf
          | cons other intermediates =>
            obtain ⟨rfl, -⟩ := List.cons_prefix_cons.1 begins
            rw [between other List.mem_cons_self] at apart
            cases apart
        rw [first, if_neg Bool.false_ne_true]
        exact afterParameters_isSome.2 ⟨intermediates, final, begins, between, hf⟩

/-- Behind an escape character the text goes on as the rest of a control sequence. -/
theorem afterEscape_isSome : (plain t).afterEscape.isSome = true ↔
    ∃ seq, IsControl seq ∧ seq <+: escapeChar :: t := by
  cases t with
  | nil =>
    refine ⟨nofun, ?_⟩
    rintro ⟨seq, ⟨parameters, intermediates, final, rfl, -⟩, begins⟩
    have := (List.cons_prefix_cons.1 begins).2
    exact (List.cons_ne_nil _ _ (List.prefix_nil.1 this)).elim
  | cons c t =>
    have after : (plain (c :: t)).afterEscape = if c = '[' then (plain t).afterBracket else none :=
      rfl
    rw [after]
    constructor
    · intro h
      split at h
      · next bracket =>
        obtain ⟨parameters, intermediates, final, begins, rest⟩ := afterBracket_isSome.1 h
        refine ⟨_, ⟨parameters, intermediates, final, rfl, rest⟩, ?_⟩
        rw [bracket]
        exact (List.prefix_cons_inj _).2 ((List.prefix_cons_inj _).2 begins)
      · cases h
    · rintro ⟨seq, ⟨parameters, intermediates, final, rfl, rest⟩, begins⟩
      obtain ⟨rfl, behind⟩ := List.cons_prefix_cons.1 (List.cons_prefix_cons.1 begins).2
      rw [if_pos rfl]
      exact afterBracket_isSome.2 ⟨parameters, intermediates, final, behind, rest⟩

/-! ## Lengths -/

/-- What is left is no longer than the text, and shorter within a control sequence. -/
theorem length_plain (t : Text) : t.withoutControls.length ≤ t.length ∧
    (∀ r, (plain t).afterParameters = some r → r.length < t.length) ∧
    (∀ r, (plain t).afterBracket = some r → r.length < t.length) ∧
    ∀ r, (plain t).afterEscape = some r → r.length < t.length := by
  induction t with
  | nil => exact ⟨Nat.le_refl 0, nofun, nofun, nofun⟩
  | cons c t ih =>
    obtain ⟨text, parameters, bracket, escape⟩ := ih
    have after : ∀ r, (plain (c :: t)).afterParameters = some r → r.length < (c :: t).length := by
      intro r hr
      simp only [plain_cons, Plain.cons] at hr
      rw [List.length_cons]
      split at hr
      · cases hr
        rw [← withoutControls_eq]
        omega
      · split at hr
        · have := parameters r hr
          omega
        · cases hr
    refine ⟨?_, after, ?_, ?_⟩
    · rw [withoutControls_cons, List.length_cons]
      split
      · cases he : (plain t).afterEscape with
        | none => simpa using text
        | some r =>
          have := escape r he
          simp only [Option.getD_some]
          omega
      · simpa using text
    · intro r hr
      by_cases parameter : isParameter c = true
      · have := bracket r (by simpa [plain_cons, Plain.cons, parameter] using hr)
        rw [List.length_cons]
        omega
      · exact after r (by simpa [plain_cons, Plain.cons, parameter] using hr)
    · intro r hr
      simp only [plain_cons, Plain.cons] at hr
      rw [List.length_cons]
      split at hr
      · have := bracket r hr
        omega
      · cases hr

theorem length_withoutControls_cons (h : t.withoutControls.length < t.length) (c : Char) :
    (withoutControls (c :: t)).length < (c :: t).length := by
  rw [withoutControls_cons, List.length_cons]
  split
  · cases he : (plain t).afterEscape with
    | none => simpa using h
    | some r =>
      have := (length_plain t).2.2.2 r he
      simp only [Option.getD_some]
      omega
  · simpa using h

theorem length_withoutControls_of_begins {seq : Text} (hs : IsControl seq) (h : seq <+: t) :
    t.withoutControls.length < t.length := by
  obtain ⟨rest, rfl⟩ := h
  obtain ⟨tail, rfl⟩ : ∃ tail, seq = escapeChar :: tail := by
    obtain ⟨parameters, intermediates, final, rfl, -⟩ := hs
    exact ⟨_, rfl⟩
  obtain ⟨r, hr⟩ : ∃ r, (plain (tail ++ rest)).afterEscape = some r :=
    Option.isSome_iff_exists.1 (afterEscape_isSome.2 ⟨_, hs, List.prefix_append _ rest⟩)
  have shorter := (length_plain (tail ++ rest)).2.2.2 r hr
  rw [List.cons_append, withoutControls_cons, if_pos rfl, List.length_cons, hr, Option.getD_some]
  omega

theorem length_withoutControls_of_part {seq : Text} (hs : IsControl seq) (before behind : Text) :
    (withoutControls (before ++ (seq ++ behind))).length < (before ++ (seq ++ behind)).length := by
  induction before with
  | nil => exact length_withoutControls_of_begins hs (List.prefix_append seq behind)
  | cons c before ih => exact length_withoutControls_cons ih c

/-- **A text is shown as it is** if and only if it has no control sequence. -/
theorem withoutControls_eq_self_iff :
    t.withoutControls = t ↔ ∀ seq, IsControl seq → ¬ seq <:+: t := by
  constructor
  · rintro same seq hs ⟨before, behind, rfl⟩
    have shorter := length_withoutControls_of_part hs before behind
    rw [← List.append_assoc, same] at shorter
    exact Nat.lt_irrefl _ shorter
  · intro none
    induction t with
    | nil => rfl
    | cons c t ih =>
      have rest := ih fun seq hs part => none seq hs (part.trans (List.suffix_cons c t).isInfix)
      rw [withoutControls_cons, rest]
      split
      · next escape =>
        cases he : (plain t).afterEscape with
        | none => rfl
        | some r =>
          obtain ⟨seq, hs, begins⟩ := afterEscape_isSome.1 (Option.isSome_of_eq_some he)
          exact (none seq hs (escape ▸ begins.isInfix)).elim
      · rfl

end NimMarkdown.Text
