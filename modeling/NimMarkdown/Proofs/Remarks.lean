import NimMarkdown.Proofs.Outcome
import NimMarkdown.Proofs.Readings

/-!
# Comments that are no doc comments

A line with a plain comment (`Line.IsRemark`) declares nothing and takes no part in
a doc comment. It is not without effect, though. It ends a block of examples and a
code block; without indent it closes the open section, and doc lines are taken again
behind it; with indent it may fix the indent of the section's entries. It also is a
line of the signature it stands in. `Scan.Skips` says where none of this shows: there
the outline of a source with the comment is the outline without it, up to the numbers
of the lines below.
-/

namespace NimMarkdown

namespace Line

/-- A comment at any indent that is not a doc comment, and has none in it. -/
structure IsRemark (line : Text) : Prop where
  comment : Text.startsWith ['#'] line.stripLeft = true
  plain : ¬ docMarker <:+: line

variable {line : Text}

theorem IsRemark.stripLeft (h : IsRemark line) : ∃ rest, line.stripLeft = '#' :: rest := by
  obtain ⟨rest, hr⟩ := List.isPrefixOf_iff_prefix.1 h.comment
  exact ⟨rest, hr.symm⟩

theorem IsRemark.mark (h : IsRemark line) : '#' ∈ line := by
  obtain ⟨rest, hr⟩ := h.stripLeft
  exact (Text.stripLeft_suffix line).subset (hr ▸ List.mem_cons_self)

theorem IsRemark.isBlankText (h : IsRemark line) : line.isBlankText = false :=
  isBlankText_of_mark h.mark

theorem IsRemark.strip (h : IsRemark line) : ∃ rest, line.strip = '#' :: rest := by
  obtain ⟨rest, hr⟩ := h.stripLeft
  refine ⟨dropEndWhile isBlank rest, ?_⟩
  rw [Text.strip, hr, Text.stripRight, dropEndWhile_cons, if_neg]
  simp [show isBlank '#' = false by decide]

theorem IsRemark.isDoc (h : IsRemark line) : isDoc line = false := by
  cases hd : Line.isDoc line with
  | false => rfl
  | true =>
    have part := (List.isPrefixOf_iff_prefix.1 hd).isInfix
    exact (h.plain (part.trans (Text.stripLeft_suffix line).isInfix)).elim

theorem IsRemark.splitInlineDoc (h : IsRemark line) : splitInlineDoc line = none := by
  cases hs : Line.splitInlineDoc line with
  | none => rfl
  | some ends =>
    obtain ⟨before, after, hc, -⟩ := cutAt_of_splitInlineDoc hs
    exact (h.plain ⟨before, after, (Text.cutAt_eq hc).symm⟩).elim

theorem IsRemark.leadingWord (h : IsRemark line) : leadingWord line.strip = none := by
  obtain ⟨rest, hr⟩ := h.strip
  rw [hr]
  rfl

theorem IsRemark.withoutComment (h : IsRemark line) : withoutComment line.strip = [] := by
  obtain ⟨rest, hr⟩ := h.strip
  rw [hr]
  rfl

theorem IsRemark.importBullet (h : IsRemark line) : importBullet line.strip = none := by
  rw [Line.importBullet, h.withoutComment]
  rfl

theorem IsRemark.includeBullet (h : IsRemark line) : includeBullet line.strip = none := by
  rw [Line.includeBullet, h.withoutComment]
  rfl

theorem IsRemark.isEntry (h : IsRemark line) : isEntry line.strip = false := by
  obtain ⟨rest, hr⟩ := h.strip
  simp [Line.isEntry, hr]

theorem IsRemark.sectionStart? (h : IsRemark line) : sectionStart? line.strip = none := by
  rw [Line.sectionStart?, h.leadingWord]
  rfl

theorem IsRemark.isMainGuard (h : IsRemark line) : isMainGuard line = false := by
  obtain ⟨rest, hr⟩ := h.strip
  simp [Line.isMainGuard, hr]

/-- Carriage returns at its end do not matter to a remark. -/
theorem IsRemark.dropReturns (h : IsRemark line) :
    IsRemark line.dropReturns ∧ line.dropReturns.indent = line.indent := by
  obtain ⟨returns, he, blank⟩ := line.dropReturns_append
  have mark : '#' ∈ line.dropReturns := by
    have hm := h.mark
    rw [he, List.mem_append] at hm
    exact hm.resolve_right (mark_not_mem_of_blank blank)
  have text := isBlankText_of_mark mark
  refine ⟨⟨?_, fun hp => h.plain (hp.trans (dropEndWhile_isPrefix _ line).isInfix)⟩, ?_⟩
  · obtain ⟨rest, hr⟩ := h.stripLeft
    have left : Text.stripLeft (line.dropReturns ++ returns) = '#' :: rest :=
      (congrArg Text.stripLeft he.symm).trans hr
    rw [Text.stripLeft_append_blank _ blank] at left
    cases hl : line.dropReturns.stripLeft with
    | nil => simp [hl] at left
    | cons c more =>
      simp only [hl, List.isEmpty_cons, Bool.false_eq_true, if_false, List.cons_append] at left
      rw [(List.cons.inj left).1]
      rfl
  · calc line.dropReturns.indent = Text.indent (line.dropReturns ++ returns) :=
          (Text.indent_append text returns).symm
      _ = line.indent := congrArg Text.indent he.symm

end Line

/-- The section behind an indented line that is no entry of it. -/
def OpenSection.fixed (o : OpenSection) (indent : Nat) : OpenSection :=
  if o.category.isSome then { o with indent := some (o.indent.getD indent) } else o

namespace Scan

variable {s s' : Scan} {line remark : Text} {number : Int} {first : Nat} {ls : List Text}

/-- The section that is open behind a remark. -/
def remarkSection (s : Scan) (remark : Text) : OpenSection :=
  if remark.indent = 0 then {} else s.openSection.fixed remark.indent

theorem sectionLine_remark (h : Line.IsRemark remark) (s : Scan) (number : Int) :
    s.sectionLine remark number = (false, s.inSection (s.remarkSection remark)) := by
  unfold sectionLine remarkSection
  split
  · next margin =>
    rw [if_pos (beq_iff_eq.1 margin)]
    simp only [sectionStart, h.sectionStart?]
    rfl
  · next margin =>
    rw [if_neg fun hz => margin (beq_iff_eq.2 hz)]
    unfold sectionEntry OpenSection.fixed
    cases hc : s.openSection.category with
    | none => rfl
    | some category =>
      simp [h.isEntry, inSection, hc]

theorem bodyLine_remark (h : Line.IsRemark remark) (pending : s.pending.lines = []) (number : Int) :
    s.bodyLine number remark = (s.atMargin remark).inSection (s.remarkSection remark) := by
  have margin : (s.atMargin remark).pending = s.pending ∧
      (s.atMargin remark).openSection = s.openSection := by
    unfold atMargin
    split <;> exact ⟨rfl, rfl⟩
  have imports : (s.atMargin remark).importLine remark.strip = none := by
    rw [← Option.not_isSome_iff_eq_none, importLine_isSome, h.importBullet, h.includeBullet]
    decide
  have examples_ : Line.opensExamples remark.strip = false := by
    rw [Line.opensExamples, h.leadingWord]
    rfl
  rw [bodyLine_eq, if_neg (by simp [h.isBlankText]), textLine, if_neg (by simp [h.isDoc]),
    h.splitInlineDoc, imports]
  simp only [declarationLine, Line.routine?_of_mark h.mark, margin.1, pending, examples_,
    sectionLine_remark h]
  simp [remarkSection, margin.2]

/-! ## The end of blocks -/

/-- The line belongs neither to the examples nor to the code block that may be open. -/
def Ends (s : Scan) (line : Text) : Prop :=
  (s.capture.active = true → line.isBlankText = false ∧ line.indent ≤ s.capture.indent) ∧
    (s.fence.isOpen = true → Line.isDoc line = true →
      (Line.docText line).isBlankText = false ∧ isBody (Line.docText line) = false)

/-- The state behind the examples. -/
def endCapture (s : Scan) : Scan :=
  { s with capture := { s.capture with active := false, bodyIndent := none } }

/-- The state behind the examples and the code block. -/
def settled (s : Scan) : Scan := s.endCapture.closeFence

theorem Sound.endCapture (hs : s.Sound) : s.endCapture.Sound :=
  { hs with
    fence_open := fun h =>
      have ⟨h1, h2, _, h4, h5⟩ := hs.fence_open h
      ⟨h1, h2, rfl, h4, h5⟩
    pending := fun h =>
      have ⟨h1, h2, _, h4⟩ := hs.pending h
      ⟨h1, h2, rfl, h4⟩
    top := fun h =>
      have ⟨h1, h2, h3, h4, _, h6⟩ := hs.top h
      ⟨h1, h2, h3, h4, rfl, h6⟩
    capture := fun _ => rfl }

theorem Sound.settled (hs : s.Sound) : s.settled.Sound :=
  hs.endCapture.closeFence

theorem settled_frame (hs : s.Sound) : s.settled.capture.active = false ∧
    s.settled.inCode = s.inCode ∧ s.settled.pending = s.pending ∧
    s.settled.admitting = s.admitting ∧ s.settled.openSection = s.openSection := by
  unfold settled
  rcases hs.endCapture.closeFence_cases with ⟨-, he⟩ | ⟨place, -, -, -, he⟩ <;> rw [he]
  · exact ⟨rfl, rfl, rfl, rfl, rfl⟩
  · exact ⟨rfl, rfl, rfl, rfl, rfl⟩

theorem captured_of_ends (hs : s.Sound) (h : s.Ends line) :
    s.captured line = (false, s.endCapture) := by
  cases ha : s.capture.active with
  | false =>
    have same : ({ s.capture with active := false, bodyIndent := none } : Capture) = s.capture := by
      rw [← hs.capture ha, ← ha]
    rw [captured_of_inactive ha, endCapture, same]
  | true =>
    obtain ⟨text, indent⟩ := h.1 ha
    simp [captured, ha, captureLine, text, indent, endCapture]

theorem fencedLine_of_ends (hs : s.Sound) (h : s.Ends line) :
    s.endCapture.fencedLine line = .ok (false, s.settled) := by
  cases hd : Line.isDoc line with
  | false => exact fencedLine_of_code hd
  | true =>
    cases ho : s.fence.isOpen with
    | false =>
      have closed : s.endCapture.fence.isOpen = false := ho
      rw [fencedLine_of_closed closed, settled, closeFence_of_closed closed]
    | true =>
      obtain ⟨text, body⟩ := h.2 ho hd
      exact fencedLine_of_fed hs.endCapture ho hd (feedFence_of_end body text)

/-- A line that ends what is open is read in the state behind that. -/
theorem codeLine_of_ends (hs : s.Sound) (h : s.Ends line) (number : Int) :
    s.codeLine number line = .ok (s.settled.bodyLine number line) := by
  rw [codeLine_eq, captured_of_ends hs h]
  exact plainLine_of_refused (fencedLine_of_ends hs h)

theorem settled_codeLine (hs : s.Sound) (line : Text) (number : Int) :
    s.settled.codeLine number line = .ok (s.settled.bodyLine number line) := by
  rw [codeLine_eq, captured_of_inactive (settled_frame hs).1]
  exact plainLine_of_refused (fencedLine_of_closed (closeFence_isOpen hs.endCapture))

theorem closeFence_capture (hs : s.Sound) (c : Capture) :
    closeFence { s with capture := c } = { s.closeFence with capture := c } := by
  cases ho : s.fence.isOpen with
  | false => rw [closeFence_of_closed ho, closeFence_of_closed (s := { s with capture := c }) ho]
  | true =>
    obtain ⟨place, hp⟩ := Option.isSome_iff_exists.1 (hs.fence.placed ho)
    rw [closeFence_of_open ho hp, closeFence_of_open (s := { s with capture := c }) ho hp]
    rfl

theorem flushPending_capture (s : Scan) (c : Capture) :
    flushPending { s with capture := c } = { s.flushPending with capture := c } := by
  cases hp : s.pending.lines with
  | nil => rw [flushPending_of_empty hp, flushPending_of_empty (s := { s with capture := c }) hp]
  | cons first rest =>
    simp only [flushPending, hp, register]
    split <;> rfl

/-- Examples and code blocks that have come to their end may as well be left. -/
theorem outcome_settled (hs : s.Sound) (inCode : s.inCode = true)
    (next : ∀ line ∈ ls.find? (!Line.isMainGuard ·), s.Ends line) :
    s.settled.outcome first ls = s.outcome first ls := by
  have inCode' : s.settled.inCode = true := (settled_frame hs).2.1.trans inCode
  induction ls generalizing first with
  | nil =>
    have finished : s.settled.finish.outline = s.finish.outline := by
      rw [finish_of_closed inCode' (closeFence_isOpen hs.endCapture)]
      simp only [finish, inCode, if_true]
      rw [settled, endCapture, closeFence_capture hs, flushPending_capture]
      rfl
    exact congrArg Except.ok finished
  | cons line rest ih =>
    cases hg : Line.isMainGuard line with
    | true =>
      rw [List.find?_cons_of_neg (by simp [hg])] at next
      rw [outcome_guard hg, outcome_guard hg, ih next]
    | false =>
      rw [List.find?_cons_of_pos (by simp [hg])] at next
      have read := codeLine_of_ends hs (next line rfl) (first : Int)
      rw [outcome_cons ((line_of_code inCode hg).trans read),
        outcome_cons ((line_of_code inCode' hg).trans (settled_codeLine hs line first))]

/-! ## A remark between two lines -/

/-- A remark may stand before the rest of the source without effect on the outline. -/
structure Skips (s : Scan) (remark : Text) (rest : List Text) : Prop where
  /-- It is not inside of a signature, -/
  signature : s.pending.lines = []
  /-- nor, as the next line, inside of examples or a code block. -/
  outside : ∀ line, line = remark ∨ line ∈ rest.find? (!Line.isMainGuard ·) → s.Ends line
  /-- Without indent and below an element that is left out: the doc lines of that are over. -/
  silence : remark.indent = 0 → s.admitting = false →
    ∀ line ∈ rest.takeWhile (!Line.isUnindented ·), Line.isDoc line = false
  /-- In an open section: the next line of code leaves that, or the remark has its indent. -/
  entries : s.openSection.category.isSome = true → ∀ line ∈ rest.find? Line.isCode,
    Line.leavesSection line = true ∨ remark.indent ≠ 0 ∧
      (s.openSection.indent = none → line.indent = 0 ∨ line.indent = remark.indent)

/-- What a remark leaves behind. -/
theorem line_remark (hs : s.Sound) (inCode : s.inCode = true) (h : Line.IsRemark remark)
    (signature : s.pending.lines = []) (outside : s.Ends remark) (number : Int) :
    s.line number remark =
      .ok ((s.settled.atMargin remark).inSection (s.settled.remarkSection remark)) := by
  rw [line_of_code inCode h.isMainGuard, codeLine_of_ends hs outside, bodyLine_remark h]
  rw [(settled_frame hs).2.2.1, signature]

theorem Skips.sections (skips : s.Skips remark ls) : ∀ line ∈ ls.find? Line.isCode,
    Line.leavesSection line = true ∨
      s.openSection.SameAt line.indent (s.remarkSection remark) := by
  intro line hline
  unfold remarkSection
  cases hc : s.openSection.category with
  | none =>
    refine .inr ?_
    split
    · exact ⟨hc, by simp [hc]⟩
    · simp only [OpenSection.fixed, hc]
      exact ⟨rfl, fun _ _ => rfl⟩
  | some category =>
    refine (skips.entries (by simp [hc]) line hline).imp_right fun ⟨indented, width⟩ => ?_
    simp only [indented, if_false, OpenSection.fixed, hc, Option.isSome_some, if_true]
    refine ⟨hc, fun hz _ => ?_⟩
    cases hi : s.openSection.indent with
    | none => exact (width hi).resolve_left hz
    | some entry => rfl

theorem atMargin_eq (s : Scan) (line : Text) :
    s.atMargin line = s ∨ line.indent = 0 ∧ s.atMargin line = s.accepting := by
  unfold atMargin
  split
  · next margin => exact .inr ⟨beq_iff_eq.1 margin, rfl⟩
  · exact .inl rfl

/-- **The outcome behind a remark** is the same as before it. -/
theorem Skips.outcome (skips : s.Skips remark ls) (hs : s.Sound) (inCode : s.inCode = true)
    (hn : 1 ≤ first) :
    ((s.settled.atMargin remark).inSection (s.settled.remarkSection remark)).outcome first ls =
      s.outcome first ls := by
  obtain ⟨inactive, inCode', pending, admitting, section_⟩ := settled_frame hs
  have hs' := hs.settled
  have opened : s.settled.remarkSection remark = s.remarkSection remark := by
    simp only [remarkSection, section_]
  have inSection : (s.settled.inSection (s.remarkSection remark)).outcome first ls =
      s.settled.outcome first ls := by
    refine outcome_inSection hs' ⟨inCode'.trans inCode, inactive⟩ ?_ hn ?_
    · rw [pending, skips.signature]
    · rw [section_]
      exact skips.sections
  have settled : s.settled.outcome first ls = s.outcome first ls :=
    outcome_settled hs inCode fun line hl => skips.outside line (.inr hl)
  rw [opened, ← settled, ← inSection]
  rcases atMargin_eq s.settled remark with he | ⟨margin, he⟩
  · rw [he]
  · rw [he]
    have sound : (s.settled.inSection (s.remarkSection remark)).Sound := { hs' with }
    cases silent : s.settled.admitting with
    | true => rw [accepting_of_admitting silent]
    | false =>
      exact outcome_accepting sound hn (skips.silence margin (admitting.symm.trans silent))

/-! ## A source with a remark -/

theorem Skips.dropReturns (skips : s.Skips remark ls) (h : Line.IsRemark remark) :
    s.Skips remark.dropReturns ls := by
  obtain ⟨h', indent⟩ := h.dropReturns
  refine ⟨skips.signature, fun line hl => ?_, ?_, ?_⟩
  · rcases hl with rfl | hl
    · have ends := (skips.outside remark (.inl rfl)).1
      refine ⟨fun ha => ⟨h'.isBlankText, indent ▸ (ends ha).2⟩, fun _ hd => ?_⟩
      exact nomatch h'.isDoc.symm.trans hd
    · exact skips.outside line (.inr hl)
  · rw [indent]
    exact skips.silence
  · rw [indent]
    exact skips.entries

theorem outcome_append (h : s.lines first ls = .ok s') (rest : List Text) :
    s.outcome first (ls ++ rest) = s'.outcome (first + ls.length) rest := by
  rw [outcome, lines_append, h]
  rfl

theorem outcome_relabel {r : Relabeling} {first' : Nat} {o : Outline}
    (filtered : ∀ b, r.exportedOnly b = b) (section_ : ∀ o, r.openSection o = o)
    (h : s.outcome first ls = .ok o)
    (numbers : ∀ i < ls.length, r.number (first + i : Nat) = (first' + i : Nat)) :
    (s.relabel r).outcome first' ls = .ok (o.relabel r.number) := by
  unfold outcome at h ⊢
  cases hl : s.lines first ls with
  | error failure =>
    rw [hl] at h
    cases h
  | ok t =>
    rw [hl] at h
    cases h
    rw [lines_relabel filtered section_ hl numbers]
    exact congrArg Except.ok (congrArg Scan.outline (finish_relabel filtered t))

/-- The number of a line when one more stands behind line `count`. -/
def shifted (count : Nat) (number : Int) : Int := if number ≤ count then number else number + 1

theorem HasRead.relabel {exportedOnly : Bool} {r : Relabeling} (h : HasRead exportedOnly ls s)
    (filtered : ∀ b, r.exportedOnly b = b) (section_ : ∀ o, r.openSection o = o)
    (numbers : ∀ i < ls.length, r.number (1 + i : Nat) = (1 + i : Nat)) : s.relabel r = s := by
  have read := lines_relabel filtered section_ h numbers
  rw [fresh_relabel filtered section_] at read
  exact h.unique read

/-- A remark shifts the lines below it by one, and does nothing else. -/
theorem HasRead.outcome_remark {exportedOnly : Bool} {before rest : List Text} {o : Outline}
    (read : HasRead exportedOnly before s) (inCode : s.inCode = true) (h : Line.IsRemark remark)
    (skips : s.Skips remark rest)
    (without : (fresh exportedOnly).outcome 1 (before ++ rest) = .ok o) :
    (fresh exportedOnly).outcome 1 (before ++ remark :: rest) =
      .ok (o.relabel (shifted before.length)) := by
  let r : Relabeling := { number := shifted before.length, narrative := by simp [shifted] }
  have filtered (b : Bool) : r.exportedOnly b = b := rfl
  have section_ (o : OpenSection) : r.openSection o = o := rfl
  let t := (s.settled.atMargin remark).inSection (s.settled.remarkSection remark)
  have reads (number : Int) : s.line number remark = .ok t :=
    line_remark read.sound inCode h skips.signature (skips.outside remark (.inl rfl)) number
  have same : t.relabel r = t := by
    have again := line_relabel (r := r) filtered section_ (reads 0)
    rw [read.relabel filtered section_ fun i hi => ?_, reads] at again
    · exact (Except.ok.inj again).symm
    · simp only [r, shifted]
      split <;> omega
  have above : t.outcome (1 + before.length) rest = .ok o := by
    rw [skips.outcome read.sound inCode (by omega), ← outcome_append read, without]
  rw [outcome_append read, outcome_cons (reads _), ← same]
  refine outcome_relabel filtered section_ above fun i _ => ?_
  simp only [r, shifted]
  split <;> omega

end Scan

namespace Source

theorem outline_of_outcome {settings : Settings} {options : Options} {content : Text} {o : Outline}
    (valid : settings.validate = .ok options)
    (h : (Scan.fresh (options.on .exportedOnly)).outcome 1 (Scan.sourceLines content) = .ok o) :
    outline settings content = .ok o := by
  obtain ⟨s, he, -⟩ := Scan.lines_ok (options.on .exportedOnly) (Scan.sourceLines content)
  rw [Scan.outcome, he] at h
  cases h
  exact outline_of_source valid (Scan.source_of_lines he)

/-- **A plain comment declares nothing.** Where a scan skips it, a comment between two lines of
the code leaves the outline as it is, but for the numbers of the lines below it. -/
theorem outline_insertRemark {settings : Settings} {options : Options} {content remark : Text}
    {before after : List Text} {s : Scan} (valid : settings.validate = .ok options)
    (lines : Text.splitLines content = before ++ after) (line : '\n' ∉ remark)
    (isRemark : Line.IsRemark remark)
    (read : Scan.HasRead (options.on .exportedOnly) (before.map Text.dropReturns) s)
    (inCode : s.inCode = true) (skips : s.Skips remark (after.map Text.dropReturns)) :
    ∃ o, outline settings content = .ok o ∧
      outline settings (Text.joinLines (before ++ remark :: after)) =
        .ok (o.relabel (Scan.shifted before.length)) := by
  have inserted : Scan.sourceLines (Text.joinLines (before ++ remark :: after)) =
      before.map Text.dropReturns ++ remark.dropReturns :: after.map Text.dropReturns := by
    rw [Scan.sourceLines, Text.splitLines_joinLines (by simp), List.map_append, List.map_cons]
    intro l hl
    have old := Text.lineFeed_not_mem_splitLines content
    rw [lines] at old
    rcases List.mem_append.1 hl with hl | hl
    · exact old l (List.mem_append_left _ hl)
    · rcases List.mem_cons.1 hl with rfl | hl
      · exact line
      · exact old l (List.mem_append_right _ hl)
  obtain ⟨final, he, -⟩ := Scan.lines_ok (options.on .exportedOnly) (Scan.sourceLines content)
  have without : (Scan.fresh (options.on .exportedOnly)).outcome 1
      (before.map Text.dropReturns ++ after.map Text.dropReturns) = .ok final.finish.outline := by
    rw [← List.map_append, ← lines]
    exact congrArg (Except.map _) he
  have with_ := read.outcome_remark inCode isRemark.dropReturns.1 (skips.dropReturns isRemark)
    without
  rw [List.length_map, ← inserted] at with_
  refine ⟨final.finish.outline, ?_, outline_of_outcome valid with_⟩
  exact outline_of_source valid (Scan.source_of_lines he)

/-- An open section in which an element is left out. -/
def hiddenEntry : List Text := ["const", "  a* = 1", "  b = 2"].map String.toList

/-- The rest of the source: a guard line, and a routine with a doc comment. -/
def guardedRoutine : List Text :=
  ["", "when isMainModule:", "proc c*() =", "  ## Doc", ""].map String.toList

/-- A comment without indent closes the section, and doc lines are taken again; but the routine
does both as well. -/
theorem outline_insertRemark_hiddenEntry :
    let only := Settings.byDefault.set (.toggle .exportedOnly) (.bool true)
    ∃ s, Scan.HasRead true hiddenEntry s ∧ s.inCode = true ∧ s.admitting = false ∧
      s.openSection = { category := some .consts, indent := some 2 } ∧
      Line.IsRemark "# const old*".toList ∧ s.Skips "# const old*".toList guardedRoutine ∧
      ∃ o, outline only (Text.joinLines (hiddenEntry ++ guardedRoutine)) = .ok o ∧
        outline only (Text.joinLines (hiddenEntry ++ "# const old*".toList :: guardedRoutine)) =
          .ok (o.relabel (Scan.shifted 3)) := by
  intro only
  obtain ⟨s, read, -⟩ := Scan.lines_ok true hiddenEntry
  have state : ((Scan.fresh true).lines 1 hiddenEntry).map
      (fun s => (s.inCode, s.admitting, s.openSection)) =
      .ok (true, false, { category := some .consts, indent := some 2 }) := by decide +kernel
  have nothing : ((Scan.fresh true).lines 1 hiddenEntry).map
      (fun s => (s.pending.lines, s.capture.active, s.fence.isOpen)) =
      .ok ([], false, false) := by decide +kernel
  rw [read] at state nothing
  simp only [Except.map, Except.ok.injEq, Prod.mk.injEq] at state nothing
  obtain ⟨inCode, silent, section_⟩ := state
  obtain ⟨pending, inactive, closed⟩ := nothing
  have isRemark : Line.IsRemark "# const old*".toList :=
    ⟨by decide, by rw [← Text.hasPart_iff]; decide⟩
  have skips : s.Skips "# const old*".toList guardedRoutine := by
    refine ⟨pending, fun _ _ => ⟨fun h => ?_, fun h => ?_⟩, fun _ _ => by decide +kernel,
      fun _ line hl => .inl ?_⟩
    · exact nomatch inactive.symm.trans h
    · exact nomatch closed.symm.trans h
    · revert line
      decide +kernel
  refine ⟨s, read, inCode, silent, section_, isRemark, skips, ?_⟩
  have valid : only.validate = .ok only.toOptions := rfl
  exact outline_insertRemark valid (by decide +kernel) (by decide) isRemark read inCode skips

/-- A comment between two parts of a source. -/
structure Insertion where
  exportedOnly : Bool := false
  before : List Text
  comment : Text
  after : List Text

/-- The comment is not a doc comment, stands in the code outside of examples, and yet does more
than to shift the lines below it. -/
def Insertion.Disturbs (i : Insertion) : Prop :=
  let settings := Settings.byDefault.set (.toggle .exportedOnly) (.bool i.exportedOnly)
  (Text.startsWith ['#'] i.comment.stripLeft = true ∧ Line.isDoc i.comment = false) ∧
    ((Scan.fresh i.exportedOnly).lines 1 i.before).map (fun s => (s.inCode, s.capture.active)) =
      .ok (true, false) ∧
    outline settings (Text.joinLines (i.before ++ i.comment :: i.after)) ≠
      (outline settings (Text.joinLines (i.before ++ i.after))).map
        (·.relabel (Scan.shifted i.before.length))

instance : DecidablePred Insertion.Disturbs := fun _ =>
  inferInstanceAs (Decidable ((_ = _ ∧ _ = _) ∧ _ = _ ∧ _ ≠ _))

/-- A comment in a signature, in a code block, below an element that is left out, in a section,
before the first entry of a section, and with a doc comment in it. -/
def disturbances : List Insertion :=
  [{ before := ["proc a*(".toList]
     comment := "  # the x".toList
     after := ["  x: int) =".toList] },
   { before := ["proc a*() =".toList, "  ## .. code-block:: nim".toList, "  ##   x".toList]
     comment := "  # note".toList
     after := ["  ##   y".toList] },
   { exportedOnly := true
     before := ["proc a() =".toList, "  discard".toList]
     comment := "# note".toList
     after := ["  ## doc".toList] },
   { before := ["const".toList, "  a* = 1".toList]
     comment := "# note".toList
     after := ["  b* = 2".toList] },
   { before := ["const".toList]
     comment := "    # note".toList
     after := ["  a* = 1".toList] },
   { before := ["proc a*() = discard".toList]
     comment := "# proc hidden*() = ## Old doc".toList
     after := [[]] }]

/-- What is asked of a remark that is skipped is needed. -/
theorem insertRemark_disturbances : disturbances.all (decide ·.Disturbs) = true := by
  decide +kernel

end Source

end NimMarkdown
