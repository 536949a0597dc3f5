import Mathlib.Data.List.DropRight
import NimMarkdown.Line.Export
import NimMarkdown.Line.Heading
import NimMarkdown.Line.Keyword
import NimMarkdown.Proofs.FenceLines
import NimMarkdown.Proofs.Text

/-!
# Line rules under trimming

The code of a declaration is written without the blanks at its ends, so what a
rule says about a line has to be what it says about the trimmed line.
`Text.TrimInvariant`: blanks before a line and blanks behind it do not matter to
a rule. They do not matter for the kind of routine that a line opens
(`routine?_trim`) nor for the export marker (`isExported_trim`). The marker
needs two facts: a blank is no word character, so that a marked name may stand
behind it, and no marked name begins at a blank or needs one at its end.
-/

namespace NimMarkdown

theorem dropEndWhile_of_all {α : Type} {p : α → Bool} {xs : List α} (h : ∀ x ∈ xs, p x = true) :
    dropEndWhile p xs = [] := by
  induction xs with
  | nil => rfl
  | cons x xs ih =>
    rw [dropEndWhile_cons, ih fun y hy => h y (List.mem_cons_of_mem _ hy), h x List.mem_cons_self]
    rfl

theorem dropEndWhile_eq_self {α : Type} {p : α → Bool} {xs : List α} (h : ∀ x ∈ xs, p x = false) :
    dropEndWhile p xs = xs := by
  induction xs with
  | nil => rfl
  | cons x xs ih =>
    rw [dropEndWhile_cons, ih fun y hy => h y (List.mem_cons_of_mem _ hy), h x List.mem_cons_self,
      Bool.and_false]
    rfl

theorem dropEndWhile_append_of_all {α : Type} {p : α → Bool} (xs : List α) {ys : List α}
    (h : ∀ y ∈ ys, p y = true) : dropEndWhile p (xs ++ ys) = dropEndWhile p xs := by
  induction xs with
  | nil => exact dropEndWhile_of_all h
  | cons x xs ih => rw [List.cons_append, dropEndWhile_cons, dropEndWhile_cons, ih]

/-- A blank is no part of a word. -/
theorem isWord_of_isBlank {c : Char} (h : isBlank c = true) : isWord c = false := by
  have beyond : ∀ n ∈ [0x85, 0xA0, 0x1680, 0x2000, 0x2001, 0x2002, 0x2003, 0x2004, 0x2005, 0x2006,
      0x2007, 0x2008, 0x2009, 0x200A, 0x2028, 0x2029, 0x202F, 0x205F, 0x3000],
      inRanges wordRanges n = false := by decide +kernel
  simp only [isBlank, Bool.or_eq_true, Bool.and_eq_true, decide_eq_true_eq, beq_iff_eq] at h
  unfold isWord
  split
  · have hu : c ≠ '_' := by
      rintro rfl
      simp at h
    simp only [isAsciiLetter, isAsciiDigit, Bool.or_eq_false_iff, Bool.and_eq_false_iff,
      decide_eq_false_iff_not, beq_eq_false_iff_ne]
    refine ⟨⟨?_, ?_⟩, hu⟩ <;> omega
  · refine beyond _ ?_
    simp only [List.mem_cons, List.not_mem_nil, or_false]
    omega

theorem isBlank_of_isWord {c : Char} (h : isWord c = true) : isBlank c = false := by
  rw [← Bool.not_eq_true]
  exact fun blank => absurd h (by simp [isWord_of_isBlank blank])

theorem isWord_of_isNameStart {c : Char} (h : isNameStart c = true) : isWord c = true := by
  simp only [isNameStart, isAsciiLetter, Bool.or_eq_true, Bool.and_eq_true,
    decide_eq_true_eq, beq_iff_eq] at h
  have small : c.toNat < 128 := by
    rcases h with hl | rfl
    · omega
    · decide
  rw [isWord, if_pos small]
  simp only [isAsciiLetter, Bool.or_eq_true, Bool.and_eq_true, decide_eq_true_eq, beq_iff_eq]
  exact h.imp_left .inl

theorem isNameStart_of_not_isWord {c : Char} (h : isWord c = false) : isNameStart c = false := by
  rw [← Bool.not_eq_true]
  exact fun starts => absurd (isWord_of_isNameStart starts) (by simp [h])

theorem isNameStart_of_isBlank {c : Char} (h : isBlank c = true) : isNameStart c = false :=
  isNameStart_of_not_isWord (isWord_of_isBlank h)

namespace Text

variable {t blanks : Text}

theorem isBlankText_iff : t.isBlankText = true ↔ ∀ c ∈ t, isBlank c = true := List.all_eq_true

theorem stripLeft_of_blank (h : t.isBlankText = true) : t.stripLeft = [] :=
  List.dropWhile_eq_nil_iff.2 (isBlankText_iff.1 h)

/-- A text is its indent and what is left when that is trimmed. -/
theorem stripLeft_split (t : Text) :
    ∃ blanks : Text, t = blanks ++ t.stripLeft ∧ blanks.isBlankText = true :=
  ⟨t.takeWhile isBlank, List.takeWhile_append_dropWhile.symm,
    isBlankText_iff.2 fun _ hc => List.mem_takeWhile_imp hc⟩

theorem stripLeft_append (h : blanks.isBlankText = true) (t : Text) :
    stripLeft (blanks ++ t) = t.stripLeft :=
  List.dropWhile_append_of_pos (isBlankText_iff.1 h)

theorem stripLeft_of_text {c : Char} (h : isBlank c = false) (r : Text) :
    stripLeft (c :: r) = c :: r :=
  List.dropWhile_cons_of_neg (by simp [h])

/-- Blanks before a text that does not begin with a blank. -/
theorem stripLeft_cons (h : blanks.isBlankText = true) {c : Char} (text : isBlank c = false)
    (r : Text) : Text.stripLeft (blanks ++ c :: r) = c :: r := by
  rw [stripLeft_append h, stripLeft_of_text text]

theorem stripLeft_append_blank (t : Text) (h : blanks.isBlankText = true) :
    Text.stripLeft (t ++ blanks) =
      if t.stripLeft.isEmpty then [] else t.stripLeft ++ blanks := by
  rw [stripLeft, List.dropWhile_append]
  exact congrArg (fun u => if t.stripLeft.isEmpty then u else t.stripLeft ++ blanks)
    (stripLeft_of_blank h)

/-- What is no blank is not trimmed away. -/
theorem mem_strip {c : Char} (h : c ∈ t) (hc : isBlank c = false) : c ∈ t.strip := by
  have left : c ∈ t.stripLeft := by
    rw [← List.takeWhile_append_dropWhile (p := isBlank) (l := t), List.mem_append] at h
    refine h.resolve_left fun hm => ?_
    rw [List.mem_takeWhile_imp hm] at hc
    cases hc
  obtain ⟨blanks, he, hb⟩ := dropEndWhile_append isBlank t.stripLeft
  rw [he, List.mem_append] at left
  refine left.resolve_right fun hm => ?_
  rw [hb c hm] at hc
  cases hc

/-- What is dropped at the end of a line is blank. -/
theorem dropReturns_append (t : Text) :
    ∃ returns : Text, t = t.dropReturns ++ returns ∧ returns.isBlankText = true := by
  obtain ⟨returns, he, hr⟩ := dropEndWhile_append (· == '\r') t
  refine ⟨returns, he, isBlankText_iff.2 fun c hc => ?_⟩
  rw [beq_iff_eq.1 (hr c hc)]
  decide

theorem strip_eq_nil_iff : t.strip = [] ↔ t.isBlankText = true := by
  refine ⟨fun h => isBlankText_iff.2 fun c hc => ?_, fun h => ?_⟩
  · by_contra hb
    have kept := mem_strip hc (by simpa using hb)
    rw [h] at kept
    cases kept
  · rw [strip, stripLeft_of_blank h]
    rfl

theorem stripRight_stripRight (t : Text) : t.stripRight.stripRight = t.stripRight := by
  obtain ⟨blanks, he, blank⟩ := dropEndWhile_append isBlank t
  calc t.stripRight.stripRight = stripRight (t.stripRight ++ blanks) :=
        (dropEndWhile_append_of_all _ blank).symm
    _ = t.stripRight := congrArg stripRight he.symm

/-- A trimmed text does not begin with a blank. -/
theorem head_strip {c : Char} {rest : Text} (h : t.strip = c :: rest) : isBlank c = false := by
  obtain ⟨blanks, he⟩ := stripRight_isPrefix t.stripLeft
  have trimmed : t.dropWhile isBlank = c :: (rest ++ blanks) := by
    rw [← List.cons_append, ← h]
    exact he.symm
  have initial := List.head?_dropWhile_not isBlank t
  simpa [trimmed] using initial

/-- The start of a trimmed text has no indent. -/
theorem stripLeft_of_start {u : Text} (h : u <+: t.strip) : u.stripLeft = u := by
  cases u with
  | nil => rfl
  | cons c r =>
    obtain ⟨rest, he⟩ := h
    exact stripLeft_of_text (head_strip he.symm) r

theorem indent_append (h : t.isBlankText = false) (u : Text) : indent (t ++ u) = t.indent := by
  have ends : (t.takeWhile isBlank).length ≠ t.length := fun he => by
    have all := List.takeWhile_eq_self_iff.1 ((List.takeWhile_prefix _).eq_of_length he)
    rw [isBlankText_iff.2 all] at h
    cases h
  rw [indent, List.takeWhile_append, if_neg ends, indent]

/-- Blanks before a text are a part of its indent. -/
theorem indent_append_left (h : blanks.isBlankText = true) (u : Text) :
    indent (blanks ++ u) = blanks.length + u.indent := by
  rw [indent, List.takeWhile_append_of_pos (isBlankText_iff.1 h), List.length_append, indent]

theorem isBlankText_stripRight (h : t.isBlankText = false) : t.stripRight.isBlankText = false := by
  obtain ⟨blanks, he, hb⟩ := dropEndWhile_append isBlank t
  cases hs : t.stripRight.isBlankText with
  | false => rfl
  | true =>
    have all : t.isBlankText = true := by
      rw [he, isBlankText, List.all_append, Bool.and_eq_true]
      exact ⟨hs, isBlankText_iff.2 hb⟩
    rw [all] at h
    cases h

theorem indent_stripRight (h : t.isBlankText = false) : t.stripRight.indent = t.indent := by
  obtain ⟨blanks, he, -⟩ := dropEndWhile_append isBlank t
  calc t.stripRight.indent = indent (t.stripRight ++ blanks) :=
        (indent_append (isBlankText_stripRight h) blanks).symm
    _ = t.indent := congrArg indent he.symm

/-- The end of a text is trimmed in its last part that is not blank. -/
theorem stripRight_append (t : Text) {u : Text} (h : u.isBlankText = false) :
    stripRight (t ++ u) = t ++ u.stripRight := by
  have filled : u.stripRight ≠ [] := fun he => by
    have text := isBlankText_stripRight h
    rw [he] at text
    cases text
  induction t with
  | nil => rfl
  | cons c r ih =>
    have rest : (r ++ u.stripRight).isEmpty = false := by simp [filled]
    rw [List.cons_append, stripRight, dropEndWhile_cons, ← stripRight, ih, rest]
    rfl

/-- Blanks before and behind a text do not matter to the rule. -/
structure TrimInvariant {α : Type} (f : Text → α) : Prop where
  left : ∀ t : Text, f t.stripLeft = f t
  right : ∀ t blanks : Text, blanks.isBlankText = true → f (t ++ blanks) = f t

variable {α : Type} {f : Text → α}

theorem TrimInvariant.stripRight (h : TrimInvariant f) (t : Text) : f t.stripRight = f t := by
  obtain ⟨blanks, he, hb⟩ := dropEndWhile_append isBlank t
  calc f t.stripRight = f (t.stripRight ++ blanks) :=
        (h.right _ blanks (isBlankText_iff.2 hb)).symm
    _ = f t := congrArg f he.symm

theorem TrimInvariant.strip (h : TrimInvariant f) (t : Text) : f t.strip = f t :=
  (h.stripRight t.stripLeft).trans (h.left t)

theorem TrimInvariant.around (h : TrimInvariant f) {left right : Text}
    (hl : left.isBlankText = true) (hr : right.isBlankText = true) (t : Text) :
    f (left ++ t ++ right) = f t :=
  calc f (left ++ t ++ right) = f (left ++ t) := h.right _ right hr
    _ = f (stripLeft (left ++ t)) := (h.left (left ++ t)).symm
    _ = f t.stripLeft := congrArg f (stripLeft_append hl t)
    _ = f t := h.left t

theorem strip_trim : TrimInvariant Text.strip where
  left t := congrArg Text.stripRight (List.dropWhile_idempotent isBlank t)
  right t blanks hb := by
    unfold Text.strip
    rw [stripLeft_append_blank t hb]
    split
    · next he => rw [List.isEmpty_iff.1 he]
    · exact dropEndWhile_append_of_all _ (isBlankText_iff.1 hb)

end Text

namespace Line

/-- The heading of a declaration does not depend on the blanks around it. -/
theorem declarationHeading_trim : Text.TrimInvariant declarationHeading where
  left t := by rw [declarationHeading, Text.strip_trim.left, declarationHeading]
  right t blanks hb := by
    rw [declarationHeading, Text.strip_trim.right t blanks hb, declarationHeading]

theorem mark_not_mem_of_blank {blanks : Text} (h : blanks.isBlankText = true) : '#' ∉ blanks := by
  intro hm
  have hb := Text.isBlankText_iff.1 h '#' hm
  revert hb
  decide

theorem mark_mem_of_startsWith {line : Text} (h : Text.startsWith docMarker line = true) :
    '#' ∈ line :=
  (List.isPrefixOf_iff_prefix.1 h).subset (by decide)

theorem mark_mem_of_isDoc {line : Text} (h : isDoc line = true) : '#' ∈ line :=
  (Text.stripLeft_suffix line).subset (mark_mem_of_startsWith h)

theorem isBlankText_of_mark {line : Text} (h : '#' ∈ line) : line.isBlankText = false := by
  cases hb : line.isBlankText with
  | false => rfl
  | true => exact absurd h (mark_not_mem_of_blank hb)

theorem contains_mark_trim : Text.TrimInvariant (List.contains · '#') where
  left t := by
    obtain ⟨blanks, he, hb⟩ := t.stripLeft_split
    calc t.stripLeft.contains '#' = (blanks ++ t.stripLeft).contains '#' := by
          simp [List.contains_eq_mem, List.mem_append, mark_not_mem_of_blank hb]
      _ = t.contains '#' := congrArg (List.contains · '#') he.symm
  right t blanks hb := by
    simp [List.contains_eq_mem, List.mem_append, mark_not_mem_of_blank hb]

/-- No word begins in blanks. -/
theorem word_of_blank {blanks : Text} (h : blanks.isBlankText = true) :
    blanks.takeWhile isWord = [] ∧ blanks.dropWhile isWord = blanks := by
  cases blanks with
  | nil => exact ⟨rfl, rfl⟩
  | cons b _ =>
    have hb := isWord_of_isBlank (Text.isBlankText_iff.1 h b List.mem_cons_self)
    simp [hb]

theorem takeWhile_append_blank (r : Text) {blanks : Text} (h : blanks.isBlankText = true) :
    (r ++ blanks).takeWhile isWord = r.takeWhile isWord := by
  rw [List.takeWhile_append, (word_of_blank h).1, List.append_nil]
  split
  · next hl => exact ((List.takeWhile_prefix isWord).eq_of_length hl).symm
  · rfl

theorem leadingWord_trim : Text.TrimInvariant leadingWord where
  left t := by
    unfold leadingWord
    rw [show t.stripLeft.stripLeft = t.stripLeft from List.dropWhile_idempotent isBlank t]
  right t blanks hb := by
    unfold leadingWord
    rw [Text.stripLeft_append_blank t hb]
    cases t.stripLeft with
    | nil => rfl
    | cons c r => simp only [List.isEmpty_cons, Bool.false_eq_true, if_false, List.cons_append,
        takeWhile_append_blank r hb]

/-- What routine a line opens does not depend on the blanks around it. -/
theorem routine?_trim : Text.TrimInvariant routine? where
  left t := by
    unfold routine?
    rw [contains_mark_trim.left, leadingWord_trim.left]
  right t blanks hb := by
    unfold routine?
    rw [contains_mark_trim.right t blanks hb, leadingWord_trim.right t blanks hb]

/-! ## The export marker -/

theorem afterIdentifier_append_blank (t : Text) {blanks : Text} (h : blanks.isBlankText = true) :
    afterIdentifier (t ++ blanks) = (afterIdentifier t).map (· ++ blanks) := by
  cases t with
  | nil =>
    cases blanks with
    | nil => rfl
    | cons b _ =>
      have hb := isNameStart_of_isBlank (Text.isBlankText_iff.1 h b List.mem_cons_self)
      simp [afterIdentifier, hb]
  | cons c r =>
    simp only [List.cons_append, afterIdentifier]
    split
    · rw [List.dropWhile_append, (word_of_blank h).2]
      cases r.dropWhile isWord <;> rfl
    · rfl

/-- Blanks behind a text do not close an operator name. -/
theorem afterOperator_append_blank (t : Text) {blanks : Text} (h : blanks.isBlankText = true) :
    afterOperator (t ++ blanks) = (afterOperator t).map (· ++ blanks) := by
  have quiet : ∀ c ∈ blanks, (c != '\x60') = true := by
    intro c hc
    have hb := Text.isBlankText_iff.1 h c hc
    simp only [bne_iff_ne, ne_eq]
    rintro rfl
    revert hb
    decide
  have tail : blanks.dropWhile (· != '\x60') = [] := List.dropWhile_eq_nil_iff.2 quiet
  match t with
  | [] =>
    cases blanks with
    | nil => rfl
    | cons b bs =>
      have hb : b ≠ '\x60' := by simpa using quiet b List.mem_cons_self
      simp [afterOperator, hb]
  | c :: r =>
    by_cases hc : c = '\x60'
    · subst hc
      simp only [List.cons_append, afterOperator]
      rw [List.dropWhile_append, tail]
      cases hd : r.dropWhile (· != '\x60') with
      | nil => simp
      | cons q rest =>
        have same : (r ++ blanks).takeWhile (· != '\x60') = r.takeWhile (· != '\x60') := by
          rw [List.takeWhile_append, if_neg]
          intro hl
          have hr := List.takeWhile_append_dropWhile (p := (· != '\x60')) (l := r)
          have := congrArg List.length hr
          rw [hd, List.length_append, hl, List.length_cons] at this
          omega
        rw [same]
        cases (r.takeWhile (· != '\x60')).isEmpty <;> rfl
    · simp [afterOperator, hc]

theorem afterName_append_blank (t : Text) {blanks : Text} (h : blanks.isBlankText = true) :
    afterName (t ++ blanks) = (afterName t).map (· ++ blanks) := by
  unfold afterName
  rw [afterIdentifier_append_blank t h, afterOperator_append_blank t h]
  cases afterIdentifier t <;> rfl

theorem followsMarker_append_blank (t : Text) {blanks : Text} (h : blanks.isBlankText = true) :
    followsMarker (t ++ blanks) = followsMarker t := by
  cases t with
  | nil =>
    cases blanks with
    | nil => rfl
    | cons b bs =>
      have hs := Text.stripLeft_of_blank h
      have hb := Text.isBlankText_iff.1 h b List.mem_cons_self
      have no : ∀ c, isBlank c = false → b ≠ c := by
        rintro c hc rfl
        rw [hb] at hc
        cases hc
      simp [followsMarker, hs, no '(' (by decide), no ':' (by decide), no '[' (by decide),
        no '{' (by decide)]
  | cons c r =>
    have hs := Text.stripLeft_append_blank (c :: r) h
    simp only [List.cons_append] at hs
    simp only [List.cons_append, followsMarker, hs]
    congr 2
    cases Text.stripLeft (c :: r) <;> rfl

theorem startsExported_append_blank (t : Text) {blanks : Text} (h : blanks.isBlankText = true) :
    startsExported (t ++ blanks) = startsExported t := by
  unfold startsExported
  rw [afterName_append_blank t h]
  match afterName t with
  | none => rfl
  | some [] =>
    cases blanks with
    | nil => rfl
    | cons b bs =>
      have hb : b ≠ '*' := by
        rintro rfl
        exact absurd (Text.isBlankText_iff.1 h '*' List.mem_cons_self) (by decide)
      simp [hb]
  | some (c :: rest) =>
    by_cases hc : c = '*'
    · subst hc
      exact followsMarker_append_blank rest h
    · simp [hc]

theorem startsExported_cons {c : Char} (name : isNameStart c = false) (quote : c ≠ '\x60')
    (r : Text) : startsExported (c :: r) = false := by
  simp [startsExported, afterName, afterIdentifier, afterOperator, name, quote]

/-- No name begins at a blank. -/
theorem startsExported_of_isBlank {b : Char} (h : isBlank b = true) (r : Text) :
    startsExported (b :: r) = false := by
  refine startsExported_cons (isNameStart_of_isBlank h) ?_ r
  rintro rfl
  exact absurd h (by decide)

theorem exportedAfter_of_blank {blanks : Text} (h : blanks.isBlankText = true)
    (previous : Option Char) : exportedAfter previous blanks = false := by
  induction blanks generalizing previous with
  | nil => rfl
  | cons b bs ih =>
    simp only [Text.isBlankText, List.all_cons, Bool.and_eq_true] at h
    rw [exportedAfter, startsExported_of_isBlank h.1, ih h.2, Bool.and_false, Bool.or_self]

theorem exportedAfter_append_blank (t : Text) {blanks : Text} (h : blanks.isBlankText = true)
    (previous : Option Char) :
    exportedAfter previous (t ++ blanks) = exportedAfter previous t := by
  induction t generalizing previous with
  | nil => exact exportedAfter_of_blank h previous
  | cons c r ih =>
    have hs := startsExported_append_blank (c :: r) h
    simp only [List.cons_append] at hs
    simp only [List.cons_append, exportedAfter, hs, ih]

/-- Outside of words a name is read as at the start of the line. -/
theorem exportedAfter_some {c : Char} (h : isWord c = false) (t : Text) :
    exportedAfter (some c) t = exportedAfter none t := by
  cases t with
  | nil => rfl
  | cons d r => simp [exportedAfter, h]

/-- The export marker of a line does not depend on the blanks around it. -/
theorem isExported_trim : Text.TrimInvariant isExported where
  left t := by
    unfold isExported
    induction t with
    | nil => rfl
    | cons c r ih =>
      by_cases hc : isBlank c = true
      · rw [Text.stripLeft, List.dropWhile_cons_of_pos hc, exportedAfter,
          startsExported_of_isBlank hc, Bool.and_false, Bool.false_or,
          exportedAfter_some (isWord_of_isBlank hc)]
        exact ih
      · rw [Text.stripLeft, List.dropWhile_cons_of_neg hc]
  right t _ h := exportedAfter_append_blank t h none

end Line

end NimMarkdown
