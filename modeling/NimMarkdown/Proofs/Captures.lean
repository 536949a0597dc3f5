import NimMarkdown.Proofs.SectionEntries
import NimMarkdown.Proofs.DocItems

/-!
# Runnable examples

The lines below `runnableExamples` may look like anything: as long as they are blank or
indented deeper, they are copied into the examples of the current declaration and do
nothing else. The copy has the indent of the first line taken away and keeps what is
deeper. The line that ends the block is read as if there had been none
(`codeLines_examples`).
-/

namespace NimMarkdown

/-- A line of the examples, without the indent of their first line as far as it goes. -/
def exampleLine (width : Nat) (line : Text) : Text :=
  if line.isBlankText then [] else dedent width line

/-- What a block of examples makes of a declaration. Blank lines at the start are left out. -/
def Declaration.addExamples (width : Nat) (lines : List Text) (d : Declaration) : Declaration :=
  { d with
    examples := d.examples ++
      (if d.examples.isEmpty then lines.dropWhile Text.isBlankText else lines).map
        (exampleLine width) }

section

variable {width : Nat} {line : Text} {lines : List Text} {d : Declaration}

theorem exampleLine_of_blank (h : line.isBlankText = true) : exampleLine width line = [] :=
  if_pos h

theorem exampleLine_of_text (h : line.isBlankText = false) :
    exampleLine width line = dedent width line :=
  if_neg (by simp [h])

theorem Declaration.addExamples_nil : d.addExamples width [] = d := by
  simp [addExamples]

theorem Declaration.addExamples_cons_blank (h : line.isBlankText = true) :
    d.addExamples width (line :: lines) =
      (if d.examples.isEmpty then d else { d with examples := d.examples ++ [[]] }).addExamples
        width lines := by
  cases he : d.examples with
  | nil => simp [addExamples, he, h]
  | cons first rest => simp [addExamples, he, exampleLine_of_blank h]

theorem Declaration.addExamples_cons_text (h : line.isBlankText = false) :
    d.addExamples width (line :: lines) =
      ({ d with examples := d.examples ++ [dedent width line] } : Declaration).addExamples
        width lines := by
  cases he : d.examples with
  | nil => simp [addExamples, he, h, exampleLine_of_text h]
  | cons first rest => simp [addExamples, he, exampleLine_of_text h]

end

namespace Scan

variable {s s' : Scan} {line : Text} {number : Int} {ls : List (Int × Text)} {index : Nat}

/-- The line belongs to the block of examples. -/
def Continues (s : Scan) (line : Text) : Prop :=
  line.isBlankText = true ∨ s.capture.indent < line.indent

/-- Behind some lines of a block of examples. -/
def withExamples (s : Scan) (index : Nat) (ls : List (Int × Text)) : Scan :=
  let width := s.capture.bodyIndent.or (Line.firstIndent? ls)
  { s with
    capture := { s.capture with bodyIndent := width }
    outline := s.outline.modify index (·.addExamples (width.getD 0) (ls.map (·.2))) }

/-- A line of the block that is not dropped. -/
def addLine (s : Scan) (index : Nat) (line : Text) : Scan :=
  if line.isBlankText then s.addBlankExample index
  else
    let width := s.capture.bodyIndent.getD line.indent
    addExample { s with capture := { s.capture with bodyIndent := some width } } index
      (dedent width line)

theorem captured_of_continues (active : s.capture.active = true) (h : s.Continues line) :
    s.captured line = (true, (s.current.elim s fun index => s.addLine index line)) := by
  have within : ¬ (!line.isBlankText && decide (line.indent ≤ s.capture.indent)) = true := by
    rcases h with h | h
    · simp [h]
    · simp [Nat.not_le.2 h]
  rw [captured, if_pos active, captureLine, if_neg within]
  cases hc : s.current with
  | none => rfl
  | some index =>
    rw [Option.elim_some, addLine]
    dsimp only
    split
    · rfl
    · rw [hc]
      rfl

theorem codeLine_of_captured (h : s.captured line = (true, s')) (number : Int) :
    s.codeLine number line = .ok s' := by
  rw [codeLine_eq, h]
  rfl

/-- Without a declaration that they could belong to, examples are dropped. -/
theorem codeLines_unclaimed (active : s.capture.active = true) (current : s.current = none)
    (inner : ∀ l ∈ ls, s.Continues l.2) :
    ls.foldlM (fun s l => s.codeLine l.1 l.2) s = .ok s := by
  induction ls with
  | nil => rfl
  | cons l rest ih =>
    have dropped : s.captured l.2 = (true, s) := by
      rw [captured_of_continues active (inner l List.mem_cons_self), current]
      rfl
    rw [List.foldlM_cons, codeLine_of_captured dropped]
    exact ih fun m hm => inner m (List.mem_cons_of_mem _ hm)

theorem modify_addExamples (o : Outline) (index width : Nat) (lines : List Text)
    (f : Declaration → Declaration) {g : Declaration → Declaration}
    (h : ∀ d, (f d).addExamples width lines = g d) :
    (o.modify index f).modify index (·.addExamples width lines) = o.modify index g := by
  simp only [Outline.modify, List.modify_modify_eq]
  congr 2
  exact funext h

/-- One line after the other. -/
theorem withExamples_cons (s : Scan) (index : Nat) (l : Int × Text) (ls : List (Int × Text)) :
    (s.addLine index l.2).withExamples index ls = s.withExamples index (l :: ls) := by
  unfold addLine
  cases hb : l.2.isBlankText with
  | true =>
    rw [if_pos rfl, withExamples, withExamples, Line.firstIndent?_cons_blank hb]
    simp only [addBlankExample, List.map_cons]
    rw [modify_addExamples _ _ _ _ _ fun d => (Declaration.addExamples_cons_blank hb).symm]
  | false =>
    rw [if_neg Bool.false_ne_true, withExamples, withExamples, Line.firstIndent?_cons_text hb]
    have width : s.capture.bodyIndent.or (some l.2.indent) =
        some (s.capture.bodyIndent.getD l.2.indent) := by
      cases s.capture.bodyIndent <;> rfl
    simp only [addExample, List.map_cons, width, Option.some_or, Option.getD_some]
    rw [modify_addExamples _ _ _ _ _ fun d => (Declaration.addExamples_cons_text hb).symm]

theorem addLine_frame (s : Scan) (index : Nat) (line : Text) :
    (s.addLine index line).capture.active = s.capture.active ∧
      (s.addLine index line).capture.indent = s.capture.indent ∧
      (s.addLine index line).current = s.current := by
  unfold addLine
  split
  · exact ⟨rfl, rfl, rfl⟩
  · exact ⟨rfl, rfl, rfl⟩

theorem withExamples_nil (s : Scan) (index : Nat) : s.withExamples index [] = s := by
  have same (width : Nat) :
      s.outline.modify index (·.addExamples width []) = s.outline := by
    have all : (Declaration.addExamples width []) = id :=
      funext fun _ => Declaration.addExamples_nil
    rw [all, Outline.modify, List.modify_id]
  simp only [withExamples, List.map_nil, same, Line.firstIndent?, List.find?_nil, Option.map_none,
    Option.or_none]

theorem codeLines_withExamples (active : s.capture.active = true)
    (current : s.current = some index) (inner : ∀ l ∈ ls, s.Continues l.2) :
    ls.foldlM (fun s l => s.codeLine l.1 l.2) s = .ok (s.withExamples index ls) := by
  induction ls generalizing s with
  | nil => exact congrArg Except.ok (s.withExamples_nil index).symm
  | cons l rest ih =>
    obtain ⟨active', indent', current'⟩ := s.addLine_frame index l.2
    have step := captured_of_continues active (inner l List.mem_cons_self)
    rw [current] at step
    have below : ∀ m ∈ rest, (s.addLine index l.2).Continues m.2 := by
      intro m hm
      rw [Continues, indent']
      exact inner m (List.mem_cons_of_mem _ hm)
    rw [List.foldlM_cons, codeLine_of_captured step, ← withExamples_cons]
    exact ih (active'.trans active) (current'.trans current) below

/-! ## The end of the block -/

section

variable (s : Scan) (c : Capture)

theorem register_capture (d : Declaration) :
    register { s with capture := c } d = { s.register d with capture := c } := by
  unfold register
  dsimp only
  split <;> rfl

theorem endDeclaration_capture :
    endDeclaration { s with capture := c } = { s.endDeclaration with capture := c } := rfl

theorem commentPlace_capture :
    commentPlace { s with capture := c } =
      (s.commentPlace.1, { s.commentPlace.2 with capture := c }) := by
  unfold commentPlace
  dsimp only
  split
  · rfl
  · split
    · rfl
    · split
      · split <;> rfl
      · rfl

theorem docTextAt_capture (place : Place) (text : Text) :
    docTextAt { s with capture := c } place text =
      { s.docTextAt place text with capture := c } := by
  unfold docTextAt
  dsimp only
  split
  · split <;> rfl
  · split <;> rfl

theorem takeDoc_capture (text : Text) :
    takeDoc { s with capture := c } text = { s.takeDoc text with capture := c } := by
  unfold takeDoc
  rw [commentPlace_capture]
  dsimp only
  split
  · split
    · rfl
    · exact docTextAt_capture _ c _ text
  · rfl

theorem docLine_capture (line : Text) :
    docLine { s with capture := c } line = { s.docLine line with capture := c } := by
  rw [docLine_eq, docLine_eq, flushPending_capture, takeDoc_capture]
  split <;> rfl

theorem declareLine_capture (code doc : Text) (number : Int) (category : Category) :
    declareLine { s with capture := c } code doc number category =
      { s.declareLine code doc number category with capture := c } :=
  register_capture s.endDeclaration c _

theorem inlineDoc_capture (code doc : Text) (number : Int) :
    inlineDoc { s with capture := c } code doc number =
      { s.inlineDoc code doc number with capture := c } := by
  have dropped : dropPending { s with capture := c } number =
      { s.dropPending number with capture := c } := by
    unfold dropPending
    dsimp only
    split <;> rfl
  rw [inlineDoc_eq, inlineDoc_eq, dropped]
  exact declareLine_capture ((s.dropPending number).inSection (s.inlineSection code)) c code doc
    number (s.lineCategory code)

theorem startDeclaration_capture (line : Text) (number : Int) :
    startDeclaration { s with capture := c } line number =
      { s.startDeclaration line number with capture := c } := by
  simp only [startDeclaration, flushPending_capture, endDeclaration_capture]
  split
  · exact flushPending_capture { s.flushPending.endDeclaration with
      pending := { lines := [line], lineNumber := number } } c
  · rfl

theorem continueDeclaration_capture (line : Text) :
    continueDeclaration { s with capture := c } line =
      { s.continueDeclaration line with capture := c } := by
  simp only [continueDeclaration]
  split
  · exact flushPending_capture
      { s with pending := { s.pending with lines := s.pending.lines ++ [line] } } c
  · rfl

theorem importLine_capture (text : Text) :
    importLine { s with capture := c } text =
      (s.importLine text).map fun t => { t with capture := c } := by
  simp only [importLine, flushPending_capture]
  split
  · rfl
  · rw [Option.map_map]
    rfl

theorem sectionLine_capture (line : Text) (number : Int) :
    sectionLine { s with capture := c } line number =
      ((s.sectionLine line number).1, { (s.sectionLine line number).2 with capture := c }) := by
  unfold sectionLine sectionStart sectionEntry
  dsimp only
  split
  · split
    · rfl
    · split
      · rfl
      · split
        · exact congrArg (Prod.mk true) (declareLine_capture
            (s.endDeclaration.inSection {}) c line.strip [] number _)
        · rfl
  · split
    · rfl
    · next category _ =>
      split
      · exact congrArg (Prod.mk true) (declareLine_capture
          (s.inSection { s.openSection with
            indent := some (s.openSection.indent.getD line.indent) }) c line.strip [] number _)
      · rfl

end

/-- The step does not read what a block of examples has left behind: it keeps it, or begins another
block. -/
def Overlooks (s : Scan) (f : Scan → Scan) : Prop :=
  (∀ c, f { s with capture := c } = { f s with capture := c }) ∨
    (f s).capture.active = true ∧ ∀ c, f { s with capture := c } = f s

theorem declarationLine_overlooks (s : Scan) (number : Int) (line : Text) :
    s.Overlooks fun t => t.declarationLine number line := by
  unfold Overlooks declarationLine
  cases routine : (Line.routine? line).isSome with
  | true =>
    refine .inl fun c => ?_
    exact startDeclaration_capture (s.inSection { s.openSection with category := none }) c line
      number
  | false =>
    cases pending : s.pending.lines.isEmpty with
    | false =>
      simp only [pending, Bool.false_eq_true, if_false, Bool.not_false, if_true]
      exact .inl fun c => continueDeclaration_capture s c line
    | true =>
      simp only [pending, sectionLine_capture, Bool.false_eq_true, if_false, Bool.not_true]
      cases !(s.sectionLine line number).1 && Line.opensExamples line.strip with
      | true => exact .inr ⟨rfl, fun c => rfl⟩
      | false => exact .inl fun c => rfl

theorem textLine_overlooks (s : Scan) (number : Int) (line : Text) :
    s.Overlooks fun t => t.textLine number line := by
  unfold Overlooks textLine
  cases doc : Line.isDoc line with
  | true => exact .inl fun c => docLine_capture s c line
  | false =>
    cases inline : Line.splitInlineDoc line with
    | some ends => exact .inl fun c => inlineDoc_capture s c _ _ number
    | none =>
      simp only [importLine_capture]
      cases s.importLine line.strip with
      | some t => exact .inl fun c => rfl
      | none => exact declarationLine_overlooks s number line

theorem bodyLine_overlooks (s : Scan) (number : Int) (line : Text) :
    s.Overlooks fun t => t.bodyLine number line := by
  cases blank : line.isBlankText with
  | true =>
    have read (t : Scan) : t.bodyLine number line = t.flushPending.endDeclaration :=
      (bodyLine_eq t number line).trans (if_pos blank)
    refine .inl fun c => ?_
    simp only [read]
    exact congrArg Scan.endDeclaration (flushPending_capture s c)
  | false =>
    have read (t : Scan) : t.bodyLine number line = (t.atMargin line).textLine number line :=
      (bodyLine_eq t number line).trans (if_neg (by simp [blank]))
    have margin (c : Capture) : atMargin { s with capture := c } line =
        { s.atMargin line with capture := c } := by
      unfold atMargin
      split <;> rfl
    rcases textLine_overlooks (s.atMargin line) number line with kept | ⟨started, same⟩
    · refine .inl fun c => ?_
      simp only [read]
      exact (congrArg (·.textLine number line) (margin c)).trans (kept c)
    · refine .inr ⟨?_, fun c => ?_⟩
      · simp only [read]
        exact started
      · simp only [read]
        exact (congrArg (·.textLine number line) (margin c)).trans (same c)

/-- Without the indent of the examples, where none are read. -/
def tidied (s : Scan) : Scan :=
  { s with
    capture := if s.capture.active then s.capture else { s.capture with bodyIndent := none } }

/-- No examples are read from here on. -/
def uncaptured (s : Scan) : Scan := { s with capture := { s.capture with active := false } }

theorem Overlooks.tidied {f : Scan → Scan} (h : s.Overlooks f) :
    f s.endCapture = (f s.uncaptured).tidied := by
  rcases h with kept | ⟨started, same⟩
  · have ended : f s.endCapture = { f s with capture := s.endCapture.capture } := kept _
    have off : f s.uncaptured = { f s with capture := s.uncaptured.capture } := kept _
    rw [ended, off]
    rfl
  · have ended : f s.endCapture = f s := same _
    have off : f s.uncaptured = f s := same _
    rw [ended, off, Scan.tidied, if_pos started]

/-- The line that ends the block is read as if there had been none. -/
theorem codeLine_uncaptured (active : s.capture.active = true) (closed : s.fence.isOpen = false)
    (text : line.isBlankText = false) (shallow : line.indent ≤ s.capture.indent) (number : Int) :
    s.codeLine number line = (s.uncaptured.codeLine number line).map tidied := by
  have ended : s.captured line = (false, s.endCapture) := by
    simp [captured, active, captureLine, text, shallow, endCapture]
  have read : s.codeLine number line = .ok (s.endCapture.bodyLine number line) := by
    rw [codeLine_eq, ended]
    exact plainLine_of_refused (fencedLine_of_closed closed)
  have off : s.uncaptured.codeLine number line = .ok (s.uncaptured.bodyLine number line) := by
    rw [codeLine_eq, captured_of_inactive rfl]
    exact plainLine_of_refused (fencedLine_of_closed closed)
  rw [read, off]
  exact congrArg Except.ok (bodyLine_overlooks s number line).tidied

/-- **Runnable examples are isolated, and lose their indent only.** From the line on that opens the
block, lines that are blank or indented deeper change nothing but the examples of the current
declaration, and nothing at all where there is none. There they are added in their order, each
without as many blanks as the first line with text begins with, or all of its own if it has fewer.
The line that ends the block has the effect that it has where no examples are read. -/
theorem codeLines_examples (reached : s.Reached) (active : s.capture.active = true)
    (started : s.capture.bodyIndent = none) {ls : List (Int × Text)}
    (inner : ∀ l ∈ ls, l.2.isBlankText = true ∨ s.capture.indent < l.2.indent) :
    let width := (Line.firstIndent? ls).getD 0
    ∃ s', ls.foldlM (fun s l => s.codeLine l.1 l.2) s = .ok s' ∧
      (s.current = none → s' = s) ∧
      (∀ index, s.current = some index → index < s.outline.declarations.length ∧
        s' = { s with
          capture := { s.capture with bodyIndent := Line.firstIndent? ls }
          outline := s.outline.modify index (·.addExamples width (ls.map (·.2))) }) ∧
      (∀ l ∈ ls, l.2.isBlankText = false →
        (∃ blanks : Text, blanks.isBlankText = true ∧ blanks.length = min width l.2.indent ∧
          l.2.stripRight = blanks ++ exampleLine width l.2) ∧
        (width ≤ l.2.indent → (exampleLine width l.2).indent + width = l.2.indent)) ∧
      ∀ number line, line.isBlankText = false → line.indent ≤ s.capture.indent →
        s'.codeLine number line = (s'.uncaptured.codeLine number line).map tidied := by
  intro width
  have closed := reached.sound.closed_of_capture active
  have dedented : ∀ l ∈ ls, l.2.isBlankText = false →
      (∃ blanks : Text, blanks.isBlankText = true ∧ blanks.length = min width l.2.indent ∧
        l.2.stripRight = blanks ++ exampleLine width l.2) ∧
      (width ≤ l.2.indent → (exampleLine width l.2).indent + width = l.2.indent) := by
    intro l _ text
    rw [exampleLine_of_text text]
    exact ⟨dedent_spec width text, indent_dedent text⟩
  rcases Option.eq_none_or_eq_some s.current with hc | ⟨index, hc⟩
  · refine ⟨s, codeLines_unclaimed active hc inner, fun _ => rfl, ?_, dedented, ?_⟩
    · intro i hi
      exact nomatch hi.symm.trans hc
    · intro number line text shallow
      exact codeLine_uncaptured active closed text shallow number
  · have taken := codeLines_withExamples active hc inner
    refine ⟨s.withExamples index ls, taken, ?_, ?_, dedented, ?_⟩
    · intro hn
      exact nomatch hn.symm.trans hc
    · intro i hi
      obtain rfl : index = i := Option.some.inj (hc.symm.trans hi)
      obtain ⟨-, -, last, -⟩ := reached.sound.current index hi
      refine ⟨by omega, ?_⟩
      simp only [withExamples, started, Option.none_or]
      rfl
    · intro number line text shallow
      exact codeLine_uncaptured (s := s.withExamples index ls) active closed text shallow number

/-- A routine that opens a block of examples. -/
def exampleHost : List Text :=
  ["proc run*() =".toList, "  ## Runs".toList, "  runnableExamples:".toList]

/-- Examples that look like declarations, comments and imports. -/
def exampleLines : List (Int × Text) :=
  [(4, "  ".toList), (5, "    proc hidden*() =".toList), (6, "      ## Not a comment  ".toList),
    (7, []), (8, "   import os".toList), (9, "    type".toList),
    (10, "      Shown* = int ## Neither".toList)]

theorem codeLines_examples_exampleLines :
    ∃ s, (fresh true).lines 1 exampleHost = .ok s ∧ s.capture.active = true ∧
      s.capture.bodyIndent = none ∧ s.current = some 0 ∧
      (∀ l ∈ exampleLines, l.2.isBlankText = true ∨ s.capture.indent < l.2.indent) ∧
      ∃ s', exampleLines.foldlM (fun s l => s.codeLine l.1 l.2) s = .ok s' ∧
        s'.outline = s.outline.modify 0 (·.addExamples 4 (exampleLines.map (·.2))) ∧
        s'.outline.declarations.map (·.examples) =
          [["proc hidden*() =".toList, "  ## Not a comment".toList, [], "import os".toList,
            "type".toList, "  Shown* = int ## Neither".toList]] ∧
        s'.codeLine 11 "  type Kind* = enum ## Declared".toList =
          (s'.uncaptured.codeLine 11 "  type Kind* = enum ## Declared".toList).map tidied := by
  obtain ⟨s, he, -⟩ := lines_ok true exampleHost
  have state : ((fresh true).lines 1 exampleHost).map
      (fun s => (s.capture, s.current, (s.outline.modify 0 (·.addExamples 4
        (exampleLines.map (·.2)))).declarations.map (·.examples))) =
      .ok ({ active := true, indent := 2 }, some 0,
        [["proc hidden*() =".toList, "  ## Not a comment".toList, [], "import os".toList,
          "type".toList, "  Shown* = int ## Neither".toList]]) := by decide +kernel
  rw [he] at state
  obtain ⟨capture, rest⟩ := Prod.mk.inj (Except.ok.inj state)
  obtain ⟨current, examples_⟩ := Prod.mk.inj rest
  have active : s.capture.active = true := by rw [capture]
  have started : s.capture.bodyIndent = none := by rw [capture]
  have inner : ∀ l ∈ exampleLines, l.2.isBlankText = true ∨ s.capture.indent < l.2.indent := by
    rw [capture]
    decide +kernel
  obtain ⟨s', read, -, taken, -, ending⟩ := codeLines_examples (.between he) active started inner
  have outline : s'.outline = s.outline.modify 0 (·.addExamples 4 (exampleLines.map (·.2))) :=
    congrArg Scan.outline (taken 0 current).2
  refine ⟨s, he, active, started, current, inner, s', read, outline, ?_, ?_⟩
  · rw [outline]
    exact examples_
  · refine ending 11 _ (by decide) ?_
    rw [capture]
    decide

end Scan

end NimMarkdown
