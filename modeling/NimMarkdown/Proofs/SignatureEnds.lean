import NimMarkdown.Line.Signature
import NimMarkdown.Proofs.Trim

/-!
# Ends of signatures

Whether a line ends a signature is decided by a few of its characters. On a line
without line feed three of the five patterns ask for characters that stand in it in a
given order, whatever stands between them, and one of these covers the pattern with
the result type (`closesParamsThenAssigns_of_type`). Two groups side by side may be
looked for anywhere, but they end with the line: the last three brackets decide
(`endsWithAdjacentGroups_iff`).
-/

namespace NimMarkdown.Line

variable {line t : Text}

/-! ## Characters in a given order -/

theorem assignsOnLine_iff (h : '\n' ∉ t) : assignsOnLine t = true ↔ '=' ∈ t := by
  rw [assignsOnLine, Text.takeWhile_of_not_mem h, List.contains_iff_mem]

theorem endsWithAssignment_iff :
    endsWithAssignment line = true ↔
      ∃ before blanks : Text, line = before ++ '=' :: blanks ∧ blanks.isBlankText = true := by
  rw [endsWithAssignment, beq_iff_eq, List.getLast?_eq_some_iff]
  constructor
  · rintro ⟨before, he⟩
    obtain ⟨blanks, split, blank⟩ := dropEndWhile_append isBlank line
    refine ⟨before, blanks, ?_, Text.isBlankText_iff.2 blank⟩
    calc line = line.stripRight ++ blanks := split
      _ = before ++ '=' :: blanks := by rw [he, List.append_assoc]; rfl
  · rintro ⟨before, blanks, rfl, blank⟩
    have sign : Text.stripRight ('=' :: blanks) = ['='] :=
      dropEndWhile_append_of_all ['='] (Text.isBlankText_iff.1 blank)
    exact ⟨before, by rw [Text.stripRight_append before rfl, sign]⟩

theorem closesParamsThenAssigns_iff (h : '\n' ∉ line) :
    closesParamsThenAssigns line = true ↔ [')', '='].Sublist line := by
  induction line with
  | nil => simp [closesParamsThenAssigns]
  | cons c r ih =>
    have rest : '\n' ∉ r := List.not_mem_of_not_mem_cons h
    simp only [closesParamsThenAssigns, Bool.or_eq_true, Bool.and_eq_true, beq_iff_eq,
      assignsOnLine_iff rest, ih rest, List.cons_sublist_cons', List.singleton_sublist]
    rw [or_comm, eq_comm]

theorem closesBraceThenAssigns_iff (h : '\n' ∉ t) :
    closesBraceThenAssigns t = true ↔ ['}', '='].Sublist t := by
  induction t with
  | nil => simp [closesBraceThenAssigns]
  | cons c r ih =>
    have rest : '\n' ∉ r := List.not_mem_of_not_mem_cons h
    have here : (c != '\n') = true := bne_iff_ne.2 (Ne.symm (List.ne_of_not_mem_cons h))
    simp only [closesBraceThenAssigns, here, Bool.true_and,
      Bool.or_eq_true, Bool.and_eq_true, beq_iff_eq, assignsOnLine_iff rest, ih rest,
      List.cons_sublist_cons', List.singleton_sublist]
    rw [or_comm, eq_comm]

theorem pragmaThenAssigns_iff (h : '\n' ∉ line) :
    pragmaThenAssigns line = true ↔ ['{', '}', '='].Sublist line := by
  induction line with
  | nil => simp [pragmaThenAssigns]
  | cons c r ih =>
    have rest : '\n' ∉ r := List.not_mem_of_not_mem_cons h
    rw [List.cons_sublist_cons']
    simp only [pragmaThenAssigns, Bool.or_eq_true, Bool.and_eq_true, beq_iff_eq,
      closesBraceThenAssigns_iff rest, ih rest]
    rw [or_comm, eq_comm]

/-- A result type between the parameters and `=` makes no difference. -/
theorem closesParamsThenAssigns_of_type (h : '\n' ∉ line)
    (typed : closesParamsWithType line = true) : closesParamsThenAssigns line = true := by
  induction line with
  | nil => cases typed
  | cons c r ih =>
    have rest : '\n' ∉ r := List.not_mem_of_not_mem_cons h
    simp only [closesParamsWithType, closesParamsThenAssigns, Bool.or_eq_true,
      Bool.and_eq_true] at typed ⊢
    refine typed.imp (fun ⟨close, behind⟩ => ⟨close, ?_⟩) (ih rest)
    split at behind
    · next result hr =>
      have part : result.Sublist r :=
        (List.sublist_cons_self ':' result).trans (hr ▸ (Text.stripLeft_suffix r).sublist)
      have assigned := (assignsOnLine_iff fun hm => rest (part.subset hm)).1 behind
      exact (assignsOnLine_iff rest).2 (part.subset assigned)
    · cases behind

/-! ## Groups at the end of the line -/

/-- A group without inner brackets, with nothing but blanks behind it. -/
inductive LastGroup : Text → Prop
  | intro {opener closer : Char} {inside blanks : Text} (opens : isOpener opener = true)
      (inner : ∀ c ∈ inside, isBracket c = false) (closes : isCloser closer = true)
      (blank : blanks.isBlankText = true) : LastGroup (opener :: inside ++ closer :: blanks)

/-- What may stand between two groups side by side: blanks, and behind them maybe `:` and a text
without brackets. -/
structure Gap (gap : Text) : Prop where
  plain : ∀ c ∈ gap, isBracket c = false
  blank : gap.isBlankText = true ∨
    ∃ blanks type : Text, gap = blanks ++ ':' :: type ∧ blanks.isBlankText = true

/-- The last three brackets of the line are a closer, and an opener and a closer of one group. -/
def EndsInGroups (line : Text) : Prop :=
  ∃ (before : Text) (closer : Char) (gap group : Text), line = before ++ closer :: gap ++ group ∧
    isCloser closer = true ∧ Gap gap ∧ LastGroup group

theorem isBracket_of_closer {c : Char} (h : isCloser c = true) : isBracket c = true := by
  rw [isBracket, h, Bool.or_true]

theorem isBracket_of_opener {c : Char} (h : isOpener c = true) : isBracket c = true := by
  rw [isBracket, h, Bool.true_or]

theorem isBlank_of_bracket {c : Char} (h : isBracket c = true) : isBlank c = false := by
  simp only [isBracket, isOpener, isCloser, Bool.or_eq_true, beq_iff_eq] at h
  rcases h with (((rfl | rfl) | rfl) | ((rfl | rfl) | rfl)) <;> decide

theorem isBracket_of_isBlank {c : Char} (h : isBlank c = true) : isBracket c = false := by
  rw [← Bool.not_eq_true]
  exact fun bracket => absurd h (by simp [isBlank_of_bracket bracket])

/-- A text up to its first bracket, if it has one. -/
theorem dropWhile_plain {plain : Text} (h : ∀ c ∈ plain, isBracket c = false) {b : Char}
    (bracket : isBracket b = true) (rest : Text) :
    (plain ++ b :: rest).dropWhile (!isBracket ·) = b :: rest := by
  rw [List.dropWhile_append_of_pos fun c hc => by rw [h c hc]; rfl,
    List.dropWhile_cons_of_neg (by simp [bracket])]

theorem plain_takeWhile (t : Text) : ∀ c ∈ t.takeWhile (!isBracket ·), isBracket c = false :=
  fun _ hc => by simpa using List.mem_takeWhile_imp hc

theorem LastGroup.begins (h : LastGroup t) :
    ∃ opener r, t = opener :: r ∧ isBracket opener = true := by
  obtain ⟨opens, -, -, -⟩ := h
  exact ⟨_, _, rfl, isBracket_of_opener opens⟩

theorem isLastGroup_iff : isLastGroup t = true ↔ LastGroup t := by
  constructor
  · intro h
    cases t with
    | nil => cases h
    | cons opener r =>
      rw [isLastGroup, Bool.and_eq_true] at h
      obtain ⟨opens, h⟩ := h
      split at h
      · next closer blanks hd =>
        rw [Bool.and_eq_true] at h
        have split : r = r.takeWhile (!isBracket ·) ++ closer :: blanks := by
          rw [← hd, List.takeWhile_append_dropWhile]
        rw [split]
        exact .intro opens (plain_takeWhile r) h.1 h.2
      · cases h
  · rintro ⟨opens, inner, closes, blank⟩
    rw [List.cons_append, isLastGroup, dropWhile_plain inner (isBracket_of_closer closes)]
    simp [opens, closes, blank]

theorem continuesToLastGroup_iff :
    continuesToLastGroup t = true ↔ ∃ gap group, t = gap ++ group ∧ Gap gap ∧ LastGroup group := by
  constructor
  · intro h
    obtain ⟨blanks, start, blank⟩ := t.stripLeft_split
    have plain : ∀ c ∈ blanks, isBracket c = false :=
      fun c hc => isBracket_of_isBlank (Text.isBlankText_iff.1 blank c hc)
    unfold continuesToLastGroup at h
    split at h
    · next rest hs =>
      refine ⟨blanks ++ ':' :: rest.takeWhile (!isBracket ·),
        rest.dropWhile (!isBracket ·), ?_, ⟨?_, .inr ⟨_, _, rfl, blank⟩⟩, isLastGroup_iff.1 h⟩
      · rw [List.append_assoc, List.cons_append, List.takeWhile_append_dropWhile, ← hs]
        exact start
      · exact List.forall_mem_append.2
          ⟨plain, List.forall_mem_cons.2 ⟨by decide, plain_takeWhile rest⟩⟩
    · exact ⟨_, _, start, ⟨plain, .inl blank⟩, isLastGroup_iff.1 h⟩
  · rintro ⟨gap, group, rfl, ⟨unbracketed, between⟩, last⟩
    obtain ⟨opener, r, rfl, bracket⟩ := last.begins
    rw [continuesToLastGroup]
    rcases between with blank | ⟨blanks, type, rfl, blank⟩
    · rw [Text.stripLeft_cons blank (isBlank_of_bracket bracket)]
      split
      · next rest he =>
        obtain ⟨rfl, -⟩ := List.cons_eq_cons.1 he
        exact absurd bracket (by decide)
      · exact isLastGroup_iff.2 last
    · have plain : ∀ c ∈ type, isBracket c = false := fun c hc =>
        unbracketed c (List.mem_append_right _ (List.mem_cons_of_mem _ hc))
      rw [List.append_assoc, List.cons_append, Text.stripLeft_cons blank (by decide)]
      show isLastGroup ((type ++ opener :: r).dropWhile _) = true
      rw [dropWhile_plain plain bracket]
      exact isLastGroup_iff.2 last

/-- Wherever two groups side by side are looked for, they are found at the end of the line. -/
theorem endsWithAdjacentGroups_iff : endsWithAdjacentGroups line = true ↔ EndsInGroups line := by
  induction line with
  | nil => simp [endsWithAdjacentGroups, EndsInGroups]
  | cons c r ih =>
    rw [endsWithAdjacentGroups, Bool.or_eq_true, Bool.and_eq_true, ih, continuesToLastGroup_iff]
    constructor
    · rintro (⟨closes, gap, group, rfl, between, last⟩ |
        ⟨before, closer, gap, group, rfl, closes, between, last⟩)
      · exact ⟨[], c, gap, group, rfl, closes, between, last⟩
      · exact ⟨c :: before, closer, gap, group, rfl, closes, between, last⟩
    · rintro ⟨before, closer, gap, group, he, closes, between, last⟩
      cases before with
      | nil =>
        obtain ⟨rfl, rfl⟩ := List.cons_eq_cons.1 he
        exact .inl ⟨closes, gap, group, rfl, between, last⟩
      | cons c' before =>
        obtain ⟨-, rfl⟩ := List.cons_eq_cons.1 he
        exact .inr ⟨before, closer, gap, group, rfl, closes, between, last⟩

/-- **The end of a signature is a look at a few characters.** On a line without line feed: `=` is
the last that is no blank, or stands somewhere behind `)`, or behind an opening brace and a closing
one, or the line ends in two groups side by side. The pattern with a result type adds nothing; and
on any text, it is the last three brackets that tell whether it ends in two groups. -/
theorem endsSignature_iff (line : Text) :
    (endsWithAdjacentGroups line = true ↔ EndsInGroups line) ∧
    ('\n' ∉ line →
      (closesParamsWithType line = true → closesParamsThenAssigns line = true) ∧
      (endsSignature line = true ↔
        (∃ before blanks : Text, line = before ++ '=' :: blanks ∧ blanks.isBlankText = true) ∨
        [')', '='].Sublist line ∨ ['{', '}', '='].Sublist line ∨ EndsInGroups line)) := by
  refine ⟨endsWithAdjacentGroups_iff, fun unbroken =>
    ⟨closesParamsThenAssigns_of_type unbroken, ?_⟩⟩
  have typed := closesParamsThenAssigns_of_type unbroken
  rw [closesParamsThenAssigns_iff unbroken] at typed
  simp only [endsSignature, Bool.or_eq_true, endsWithAssignment_iff,
    closesParamsThenAssigns_iff unbroken, pragmaThenAssigns_iff unbroken,
    endsWithAdjacentGroups_iff, or_assoc]
  exact or_congr_right (or_iff_right_of_imp fun h => .inl (typed h))

/-- A line that all of these patterns but the first find, with a group behind its last `)`. -/
theorem endsSignature_iff_indexedResult :
    let line := "proc f*(x: int): int {.inline.} = g(x)[1]".toList
    '\n' ∉ line ∧ closesParamsWithType line = true ∧ closesParamsThenAssigns line = true ∧
      EndsInGroups line ∧ endsSignature line = true := by
  intro line
  have unbroken : '\n' ∉ line := by decide
  have typed : closesParamsWithType line = true := by decide
  obtain ⟨groups, signature⟩ := endsSignature_iff line
  obtain ⟨covered, ends⟩ := signature unbroken
  have last : EndsInGroups line := groups.1 (by decide)
  exact ⟨unbroken, typed, covered typed, last, ends.2 (.inr (.inr (.inr last)))⟩

end NimMarkdown.Line
