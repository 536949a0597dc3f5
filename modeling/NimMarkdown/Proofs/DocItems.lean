import NimMarkdown.Proofs.Run
import NimMarkdown.Proofs.Trim

/-!
# Doc texts with look-ahead

`docItems` says what the texts of a doc comment are, with the whole comment in
view: a directive is followed by the lines of its code block (`block`), a text with
an underline below it is a heading, and any other text is a line. The scan has no
view of what comes and keeps the last line, or the state of an open code block,
instead. `owed` are the items that are still to come from such a state; the
lemmas on it are shared by all places that doc texts go to. `feedFence_owed`: what
a code block writes for a text, and what it owes behind it, is what it owed before.
-/

namespace NimMarkdown

/-- A line of a formatted doc comment; a heading comes from an underline. -/
inductive DocItem where
  | text (line : Text)
  | heading (level : Nat) (title : Text)
  deriving DecidableEq, Repr

/-- The line of the item in the top matter. -/
def DocItem.line : DocItem → Text
  | .text line => line
  | .heading level title => headingLine level title

@[simp] theorem DocItem.map_line_text (lines : List Text) :
    lines.map (DocItem.line ∘ DocItem.text) = lines := List.map_id lines

/-- A text that goes on with a code block: indented, and no directive. -/
def isBody (text : Text) : Bool :=
  !Line.isCodeBlock text && !text.isBlankText && text.head?.any isBlank

/-- A line of a code block, without the indent of its first line as far as it goes. -/
def dedent (width : Nat) (text : Text) : Text := Text.stripRight (text.drop (min width text.indent))

section

variable {text : Text}

/-- Only blanks are taken away at the start, and as many as the width and the indent allow. -/
theorem dedent_spec (width : Nat) (h : text.isBlankText = false) :
    ∃ blanks : Text, blanks.isBlankText = true ∧ blanks.length = min width text.indent ∧
      text.stripRight = blanks ++ dedent width text := by
  have within : min width text.indent ≤ (text.takeWhile isBlank).length := Nat.min_le_right _ _
  have part : text.take (min width text.indent) <+: text.takeWhile isBlank :=
    List.prefix_of_prefix_length_le (List.take_prefix _ _) (List.takeWhile_prefix _)
      ((List.length_take_le _ _).trans within)
  have blank : Text.isBlankText (text.take (min width text.indent)) = true :=
    Text.isBlankText_iff.2 fun _ hc => List.mem_takeWhile_imp (part.subset hc)
  have rest : Text.isBlankText (text.drop (min width text.indent)) = false := by
    cases hr : Text.isBlankText (text.drop (min width text.indent)) with
    | false => rfl
    | true =>
      rw [← List.take_append_drop (min width text.indent) text, Text.isBlankText, List.all_append,
        Bool.and_eq_false_iff] at h
      rcases h with h | h
      · cases blank.symm.trans h
      · cases hr.symm.trans h
  refine ⟨text.take (min width text.indent), blank, ?_, ?_⟩
  · have short := within.trans (List.takeWhile_prefix isBlank).length_le
    rw [List.length_take, Nat.min_eq_left short]
  · rw [dedent, ← Text.stripRight_append _ rest, List.take_append_drop]

/-- A line that is indented as deep as the first keeps its indent relative to it. -/
theorem indent_dedent {width : Nat} (h : text.isBlankText = false) (deep : width ≤ text.indent) :
    (dedent width text).indent + width = text.indent := by
  obtain ⟨blanks, blank, length, he⟩ := dedent_spec width h
  have whole : text.stripRight.indent = text.indent := Text.indent_stripRight h
  rw [he, Text.indent_append_left blank, length, Nat.min_eq_left deep] at whole
  omega

end

/-- The lines of a code block from within its body on, and the texts behind the block. A blank
line belongs to the body if the body goes on behind it. Else it ends the block and stands behind
it, unless another blank line follows. -/
def blockRest (width : Nat) : List Text → List Text × List Text
  | [] => ([fenceMark], [])
  | t :: ts =>
    if isBody t then (dedent width t :: (blockRest width ts).1, (blockRest width ts).2)
    else if t.isBlankText then
      match ts with
      | [] => ([fenceMark, []], [])
      | u :: _ =>
        if isBody u then ([] :: (blockRest width ts).1, (blockRest width ts).2)
        else if u.isBlankText then ([fenceMark], ts)
        else ([fenceMark, []], ts)
    else ([fenceMark], t :: ts)

/-- The lines of a code block behind its directive, and the texts behind the block. Blank lines
before the body are left out. -/
def block (ts : List Text) : List Text × List Text :=
  match ts.dropWhile Text.isBlankText with
  | [] => ([fenceMark], [])
  | t :: rest => if isBody t then blockRest t.indent (t :: rest) else ([fenceMark], t :: rest)

theorem blockRest_suffix (width : Nat) (ts : List Text) : (blockRest width ts).2 <:+ ts := by
  fun_induction blockRest width ts with
  | case1 => exact List.suffix_rfl
  | case2 t ts _ ih => exact ih.trans (List.suffix_cons t ts)
  | case3 => exact List.nil_suffix
  | case4 t _ _ u rest _ ih => exact ih.trans (List.suffix_cons t (u :: rest))
  | case5 => exact List.suffix_cons _ _
  | case6 => exact List.suffix_cons _ _
  | case7 => exact List.suffix_rfl

theorem block_suffix (ts : List Text) : (block ts).2 <:+ ts := by
  have dropped := List.dropWhile_suffix Text.isBlankText (l := ts)
  unfold block
  split
  · exact List.nil_suffix
  · next t rest h =>
    rw [h] at dropped
    split
    · exact (blockRest_suffix _ _).trans dropped
    · exact dropped

/-- The items of a doc comment. -/
def docItems : List Text → List DocItem
  | [] => []
  | t :: ts =>
    if Line.isCodeBlock t then
      .text (if Line.isPlainBlock t then fenceMark else sourceFence) ::
        ((block ts).1.map .text ++ docItems (block ts).2)
    else
      match ts with
      | [] => [.text t]
      | u :: rest =>
        if Line.underlineLevel u ≠ 0 ∧ t.isBlankText = false then
          .heading (Line.underlineLevel u) t :: docItems rest
        else .text t :: docItems (u :: rest)
termination_by ts => ts.length
decreasing_by
  · exact Nat.lt_succ_of_le (block_suffix ts).length_le
  · simp only [List.length_cons]
    omega
  · exact Nat.lt_succ_self _

/-! ## Directives and underlines -/

namespace Line

variable {t : Text}

theorem point_of_lowerChar {c : Char} (h : '.' ∈ lowerChar c) : c = '.' := by
  unfold lowerChar at h
  simp only [Bool.and_eq_true, decide_eq_true_eq, beq_iff_eq] at h
  split at h
  · next hc =>
    have letters : ∀ n < 91, 65 ≤ n → '.' ∉ [Char.ofNat (n + 32)] := by decide
    exact absurd h (letters c.toNat (by omega) hc.1)
  · split at h
    · exact absurd h (by decide)
    · split at h
      · exact absurd h (by decide)
      · exact (List.mem_singleton.1 h).symm

/-- A directive has a point in it. -/
theorem point_of_isCodeBlock (h : isCodeBlock t = true) : '.' ∈ t := by
  have part := Text.hasPart_iff.1 h
  have lowered : '.' ∈ Text.lower (t.filter (· != ' ')) := part.subset (by decide)
  obtain ⟨c, hc, hl⟩ := List.mem_flatMap.1 lowered
  rw [← point_of_lowerChar hl]
  exact (List.mem_filter.1 hc).1

theorem isBlankText_of_isCodeBlock (h : isCodeBlock t = true) : t.isBlankText = false := by
  cases hb : t.isBlankText with
  | false => rfl
  | true => exact absurd (Text.isBlankText_iff.1 hb '.' (point_of_isCodeBlock h)) (by decide)

theorem all_of_isRule {c d : Char} (h : isRule c t = true) (hd : d ∈ t) : d = c := by
  simp only [isRule, Bool.and_eq_true, List.all_eq_true, beq_iff_eq] at h
  exact h.2 d hd

/-- An underline is no directive. -/
theorem isCodeBlock_of_underline (h : underlineLevel t ≠ 0) : isCodeBlock t = false := by
  cases hd : isCodeBlock t with
  | false => rfl
  | true =>
    have point := Text.mem_strip (point_of_isCodeBlock hd) (by decide)
    refine absurd ?_ h
    have no (c : Char) (hc : '.' ≠ c) : isRule c t.strip = false := by
      cases hr : isRule c t.strip with
      | false => rfl
      | true => exact absurd (all_of_isRule hr point) hc
    simp only [underlineLevel, no '-' (by decide), no '=' (by decide), no '^' (by decide)]
    rfl

end Line

/-! ## What the items begin with -/

section

variable {t u : Text} {ts : List Text}

/-- The line that opens the block of a directive. -/
def openingLine (text : Text) : Text := if Line.isPlainBlock text then fenceMark else sourceFence

theorem docItems_directive (h : Line.isCodeBlock t = true) (ts : List Text) :
    docItems (t :: ts) =
      .text (openingLine t) :: ((block ts).1.map .text ++ docItems (block ts).2) := by
  rw [docItems.eq_def]
  simp only [h, if_true, openingLine]

theorem docItems_heading (ht : Line.isCodeBlock t = false) (hu : Line.underlineLevel u ≠ 0)
    (hb : t.isBlankText = false) (ts : List Text) :
    docItems (t :: u :: ts) = .heading (Line.underlineLevel u) t :: docItems ts := by
  rw [docItems.eq_def]
  simp only [ht, Bool.false_eq_true, if_false]
  rw [if_pos ⟨hu, hb⟩]

theorem docItems_text (ht : Line.isCodeBlock t = false)
    (h : ∀ u ∈ ts.head?, Line.underlineLevel u ≠ 0 → t.isBlankText = true) :
    docItems (t :: ts) = .text t :: docItems ts := by
  rw [docItems.eq_def]
  simp only [ht, Bool.false_eq_true, if_false]
  cases ts with
  | nil => simp only [docItems]
  | cons u rest =>
    simp only
    rw [if_neg]
    rintro ⟨hu, hb⟩
    rw [h u rfl hu] at hb
    cases hb

-- The underline behind the code block has no line above it and is a text.
example :
    docItems (["Title", "=====", ".. code-block::", "  echo 1", "", "---", "Rest"].map
        String.toList) =
      [.heading 2 "Title".toList, .text sourceFence, .text "echo 1".toList, .text fenceMark,
        .text [], .text "---".toList, .text "Rest".toList] := by
  decide +kernel

end

/-! ## What is still to come -/

/-- The lines that an open code block writes for texts, and the texts behind the block. -/
def Fence.rest (f : Fence) (ts : List Text) : List Text × List Text :=
  match f.indent with
  | none => block ts
  | some width => blockRest width (f.resuming ++ ts)

/-- The items that texts bring to a state with a given fence and a text that is held back. -/
def owed (f : Fence) (held : Option Text) (ts : List Text) : List DocItem :=
  if f.isOpen then (f.rest ts).1.map .text ++ docItems (f.rest ts).2
  else docItems (held.toList ++ ts)

section

variable {f : Fence} {t : Text} {ts : List Text} {width : Nat}

theorem owed_closed (h : f.isOpen = false) (held : Option Text) (ts : List Text) :
    owed f held ts = docItems (held.toList ++ ts) := by
  rw [owed, if_neg (by simp [h])]

theorem owed_open (h : f.isOpen = true) (held : Option Text) (ts : List Text) :
    owed f held ts = (f.rest ts).1.map .text ++ docItems (f.rest ts).2 := by
  rw [owed, if_pos h]

/-- A text that is held back is written as it is, unless an underline follows. -/
theorem docItems_held {held : Option Text} (hh : ∀ t, held = some t → Line.isCodeBlock t = false)
    (h : ∀ u ∈ ts.head?, Line.underlineLevel u ≠ 0 → ∀ t, held = some t → t.isBlankText = true) :
    docItems (held.toList ++ ts) = held.toList.map .text ++ docItems ts := by
  cases held with
  | none => rfl
  | some t => exact docItems_text (hh t rfl) fun u hu hl => h u hu hl t rfl

theorem docItems_held_end {held : Option Text}
    (hh : ∀ t, held = some t → Line.isCodeBlock t = false) :
    docItems held.toList = held.toList.map .text := by
  cases held with
  | none => simp [docItems]
  | some t =>
    rw [Option.toList_some, docItems_text (hh t rfl) (by simp), docItems]
    rfl

/-- A directive opens a code block behind the text that was held back. -/
theorem docItems_held_directive {held : Option Text}
    (hh : ∀ t, held = some t → Line.isCodeBlock t = false) (hd : Line.isCodeBlock t = true)
    (place : Place) (ts : List Text) :
    docItems (held.toList ++ t :: ts) = held.toList.map .text ++ .text (openingLine t) ::
      owed { isOpen := true, atStart := true, place := some place } none ts := by
  -- No underline is a directive.
  have plain : Line.underlineLevel t = 0 := by
    by_contra hl
    rw [Line.isCodeBlock_of_underline hl] at hd
    cases hd
  rw [docItems_held hh (by simp [plain]), docItems_directive hd]
  rfl

theorem blockRest_body (h : isBody t = true) (ts : List Text) :
    blockRest width (t :: ts) =
      (dedent width t :: (blockRest width ts).1, (blockRest width ts).2) := by
  rw [blockRest.eq_def]
  simp only [h, if_true]

theorem isBody_of_blank (h : t.isBlankText = true) : isBody t = false := by
  simp [isBody, h]

theorem blockRest_blank (h : t.isBlankText = true) (ts : List Text) :
    blockRest width (t :: ts) = blockRest width ([] :: ts) := by
  have blank : Text.isBlankText [] = true := rfl
  rw [blockRest.eq_def, blockRest.eq_def width ([] :: ts)]
  simp only [isBody_of_blank h, isBody_of_blank blank, h, blank, Bool.false_eq_true, if_false,
    if_true]

/-- A text that is neither blank nor part of the body ends the block. -/
theorem blockRest_end (hb : isBody t = false) (hn : t.isBlankText = false) (ts : List Text) :
    blockRest width (t :: ts) = ([fenceMark], t :: ts) ∧
      blockRest width ([] :: t :: ts) = ([fenceMark, []], t :: ts) := by
  have blank : Text.isBlankText [] = true := rfl
  refine ⟨?_, ?_⟩
  · rw [blockRest.eq_def]
    simp only [hb, hn, Bool.false_eq_true, if_false]
  · rw [blockRest.eq_def]
    simp only [isBody_of_blank blank, blank, hb, hn, Bool.false_eq_true, if_false, if_true]

/-- A blank line belongs to the body if the body goes on behind it. -/
theorem blockRest_resume (h : isBody t = true) (ts : List Text) :
    blockRest width ([] :: t :: ts) =
      ([] :: (blockRest width (t :: ts)).1, (blockRest width (t :: ts)).2) := by
  have blank : Text.isBlankText [] = true := rfl
  rw [blockRest.eq_def width ([] :: t :: ts)]
  simp only [isBody_of_blank blank, blank, h, Bool.false_eq_true, if_false, if_true]

/-- Two blank lines end the block. -/
theorem blockRest_twoBlanks (h : t.isBlankText = true) (ts : List Text) :
    blockRest width ([] :: t :: ts) = ([fenceMark], t :: ts) := by
  have blank : Text.isBlankText [] = true := rfl
  rw [blockRest.eq_def width ([] :: t :: ts)]
  simp only [isBody_of_blank blank, isBody_of_blank h, blank, h, Bool.false_eq_true, if_false,
    if_true]

theorem Fence.rest_end (hf : f.Sound) (ho : f.isOpen = true) (hb : isBody t = false)
    (hn : t.isBlankText = false) (ts : List Text) : f.rest (t :: ts) = (f.closing, t :: ts) := by
  unfold Fence.rest Fence.closing
  cases hi : f.indent with
  | none =>
    have hh := hf.start_blank ((hf.start ho).2 hi)
    simp [block, hn, hb, hh]
  | some width =>
    unfold Fence.resuming
    cases f.blankHeld with
    | false => exact (blockRest_end hb hn ts).1
    | true => exact (blockRest_end hb hn ts).2

/-- A line of the body is written behind the blank line that was held back. -/
theorem Fence.rest_body (hf : f.Sound) (ho : f.isOpen = true) (hb : isBody t = true)
    (ts : List Text) :
    f.rest (t :: ts) = (f.resuming ++ [dedent (f.indent.getD t.indent) t] ++
      (blockRest (f.indent.getD t.indent) ts).1, (blockRest (f.indent.getD t.indent) ts).2) := by
  have hn : t.isBlankText = false := by
    simp only [isBody, Bool.and_eq_true, Bool.not_eq_true'] at hb
    exact hb.1.2
  unfold Fence.rest Fence.resuming
  cases hi : f.indent with
  | none =>
    have hh := hf.start_blank ((hf.start ho).2 hi)
    simp [block, hn, hb, hh, blockRest_body]
  | some width =>
    cases f.blankHeld with
    | false => simp [blockRest_body hb]
    | true => simp [blockRest_resume hb, blockRest_body hb]

theorem Fence.rest_nil (hf : f.Sound) (ho : f.isOpen = true) : f.rest [] = (f.closing, []) := by
  unfold Fence.rest Fence.closing Fence.resuming
  cases hi : f.indent with
  | none =>
    have hh := hf.start_blank ((hf.start ho).2 hi)
    simp [block, hh]
  | some width => cases f.blankHeld <;> rfl

end

theorem Outline.modifyLines_append_nil (o : Outline) (place : Place) :
    o.modifyLines place (· ++ []) = o := by
  cases place with
  | topMatter => simp [modifyLines]
  | comment index =>
    have same : (fun d : Declaration => { d with comment := d.comment ++ [] }) = id :=
      funext fun d => by simp
    simp only [modifyLines, modify, same, List.modify_id]

namespace Scan

variable {s : Scan} {place : Place} {text : Text}

/-! ## How a code block answers a text -/

theorem feedFence_of_body (hb : isBody text = true) (hp : s.fence.place = some place) :
    s.feedFence text = .ok (true, (s.indented (s.fence.indent.getD text.indent)).writeFenced place
      (min (s.fence.indent.getD text.indent) text.indent) text) := by
  simp only [isBody, Bool.and_eq_true, Bool.not_eq_true'] at hb
  obtain ⟨⟨hd, hn⟩, hc⟩ := hb
  unfold feedFence
  rw [if_neg (by simp [hd]), if_neg (by simp [hn])]
  cases text with
  | nil => cases hc
  | cons first more =>
    simp only [show isBlank first = true by simpa using hc, if_true]
    split
    · next h =>
      rw [hp] at h
      cases h
    · next q h =>
      obtain rfl : place = q := Option.some.inj (hp.symm.trans h)
      rfl

theorem feedFence_of_blank (hn : text.isBlankText = true) :
    s.feedFence text =
      if s.fence.atStart then .ok (true, s)
      else if s.fence.blankHeld then
        .ok (false, closeFence { s with fence := { s.fence with blankHeld := false } })
      else .ok (true, { s with fence := { s.fence with blankHeld := true } }) := by
  have hd : Line.isCodeBlock text = false := by
    cases hd : Line.isCodeBlock text with
    | false => rfl
    | true =>
      rw [Line.isBlankText_of_isCodeBlock hd] at hn
      cases hn
  unfold feedFence
  rw [if_neg (by simp [hd]), if_pos hn]

theorem feedFence_of_end (hb : isBody text = false) (hn : text.isBlankText = false) :
    s.feedFence text = .ok (false, s.closeFence) := by
  unfold feedFence
  split
  · rfl
  · next hd =>
    rw [if_neg (by simp [hn])]
    cases text with
    | nil => cases hn
    | cons first more =>
      have hc : isBlank first = false := by simpa [isBody, hd, hn] using hb
      simp [hc]

/-- The code block writes lines for a text, and owes the items of the texts behind it; if it has
not taken the text, it is closed and owes those of the text as well. -/
def AnswersFenced (s : Scan) (place : Place) (text : Text) : Prop :=
  ∃ taken written fence,
    s.feedFence text = .ok (taken, { s.edit place (· ++ written) with fence }) ∧
    fence.isOpen = taken ∧
    (taken = false → written = [fenceMark] ∨ written = [fenceMark, []]) ∧
    ∀ ts, owed s.fence none (text :: ts) =
      written.map .text ++ owed fence none (if taken then ts else text :: ts)

theorem edit_append_nil (s : Scan) (place : Place) (fence : Fence) :
    ({ s.edit place (· ++ []) with fence } : Scan) = { s with fence } := by
  rw [edit, Outline.modifyLines_append_nil]

theorem answersFenced_body (hf : s.fence.Sound) (ho : s.fence.isOpen = true)
    (hp : s.fence.place = some place) (hb : isBody text = true) : s.AnswersFenced place text := by
  let width := s.fence.indent.getD text.indent
  let fence := { s.fence with indent := some width, blankHeld := false, atStart := false }
  refine ⟨true, s.fence.resuming ++ [dedent width text], fence, ?_, ho, nofun, fun ts => ?_⟩
  · rw [feedFence_of_body hb hp, writeFenced_eq]
    rfl
  · rw [owed_open ho, Fence.rest_body hf ho hb, owed_open (f := fence) ho, List.map_append,
      List.append_assoc]
    rfl

theorem answersFenced_blank (hf : s.fence.Sound) (ho : s.fence.isOpen = true)
    (hp : s.fence.place = some place) (hn : text.isBlankText = true) :
    s.AnswersFenced place text := by
  unfold AnswersFenced
  rw [feedFence_of_blank hn]
  cases hi : s.fence.indent with
  | none =>
    have ha : s.fence.atStart = true := (hf.start ho).2 hi
    refine ⟨true, [], s.fence, ?_, ho, nofun, fun ts => ?_⟩
    · rw [if_pos ha, edit_append_nil]
    · simp [owed_open ho, Fence.rest, hi, block, hn]
  | some width =>
    have ha : ¬s.fence.atStart = true := fun ha => by simp [(hf.start ho).1 ha] at hi
    rw [if_neg ha]
    split
    · next hh =>
      have close := closeFence_of_open
        (s := { s with fence := { s.fence with blankHeld := false } }) ho hp
      refine ⟨false, [fenceMark], {}, congrArg (fun t => Except.ok (false, t)) close, rfl,
        fun _ => .inl rfl, fun ts => ?_⟩
      rw [owed_open ho, owed_closed rfl]
      simp [Fence.rest, hi, Fence.resuming, hh, blockRest_twoBlanks hn]
    · next hh =>
      refine ⟨true, [], { s.fence with blankHeld := true }, ?_, ho, nofun, fun ts => ?_⟩
      · rw [edit_append_nil]
      · rw [owed_open ho, owed_open (f := { s.fence with blankHeld := true }) ho]
        simp [Fence.rest, hi, Fence.resuming, hh, blockRest_blank hn]

theorem answersFenced_end (hf : s.fence.Sound) (ho : s.fence.isOpen = true)
    (hp : s.fence.place = some place) (hb : isBody text = false) (hn : text.isBlankText = false) :
    s.AnswersFenced place text := by
  refine ⟨false, s.fence.closing, {}, ?_, rfl, fun _ => ?_, fun ts => ?_⟩
  · rw [feedFence_of_end hb hn, closeFence_of_open ho hp]
  · unfold Fence.closing
    split
    · exact .inr rfl
    · exact .inl rfl
  · rw [owed_open ho, Fence.rest_end hf ho hb hn, owed_closed rfl]
    rfl

/-- **An open code block answers every text.** -/
theorem answersFenced (hf : s.fence.Sound) (ho : s.fence.isOpen = true)
    (hp : s.fence.place = some place) (text : Text) : s.AnswersFenced place text := by
  cases hb : isBody text with
  | true => exact answersFenced_body hf ho hp hb
  | false =>
    cases hn : text.isBlankText with
    | true => exact answersFenced_blank hf ho hp hn
    | false => exact answersFenced_end hf ho hp hb hn

end Scan

end NimMarkdown
