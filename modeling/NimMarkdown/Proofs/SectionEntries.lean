import NimMarkdown.Proofs.Remarks

/-!
# The entries of a section

A section keyword alone on its line opens a section, and the first line below it that
is not blank fixes the indent of its entries. `Scan.Listing` is the state in between:
no line of the section (`Line.IsListed`) leads out of it, whether it is an entry, a
field of one, or a blank line. So the entries are those lines that have the indent of
the first and read as an entry.
-/

namespace NimMarkdown

namespace Line

/-- A line below a section keyword: a blank one, or an indented one without a comment that
begins neither a routine nor examples, and imports nothing. -/
def IsListed (line : Text) : Prop :=
  line.isBlankText = true ∨ line.indent ≠ 0 ∧ '#' ∉ line ∧ routine? line = none ∧
    importBullet line.strip = none ∧ includeBullet line.strip = none ∧
      leadingWord line ≠ some "runnableExamples".toList

instance : DecidablePred IsListed := fun line =>
  inferInstanceAs (Decidable (line.isBlankText = true ∨ _ ∧ _ ∧ _ ∧ _ ∧ _ ∧ _))

/-- The declaration of an entry that stands on a line with a number. -/
def entry (category : Category) (l : Int × Text) : Declaration where
  lineNumber := l.1
  isExported := isExported l.2.strip
  category
  heading := some (declarationHeading l.2.strip)
  code := [l.2.strip]

/-- The indent of the first line that is not blank. -/
def firstIndent? (ls : List (Int × Text)) : Option Nat :=
  (ls.find? fun l => !l.2.isBlankText).map fun l => l.2.indent

/-- The entries among the lines that have a given indent. -/
def entriesAt (indent : Option Nat) (category : Category) (ls : List (Int × Text)) :
    List Declaration :=
  (ls.filter fun l => some l.2.indent == indent && isEntry l.2.strip).map (entry category)

variable {line : Text} {l : Int × Text} {ls : List (Int × Text)} {category : Category}

theorem isEntry_of_blank (h : line.isBlankText = true) : isEntry line.strip = false := by
  rw [Text.strip_eq_nil_iff.2 h]
  rfl

theorem firstIndent?_cons_blank (h : l.2.isBlankText = true) :
    firstIndent? (l :: ls) = firstIndent? ls := by
  rw [firstIndent?, List.find?_cons_of_neg (by simp [h])]
  rfl

theorem firstIndent?_cons_text (h : l.2.isBlankText = false) :
    firstIndent? (l :: ls) = some l.2.indent := by
  rw [firstIndent?, List.find?_cons_of_pos (by simp [h])]
  rfl

theorem isDoc_of_unmarked (h : '#' ∉ line) : isDoc line = false := by
  rw [← Bool.not_eq_true]
  exact fun doc => h (mark_mem_of_isDoc doc)

theorem splitInlineDoc_of_unmarked (h : '#' ∉ line) : splitInlineDoc line = none := by
  cases hs : splitInlineDoc line with
  | none => rfl
  | some ends =>
    obtain ⟨before, after, hc, -⟩ := cutAt_of_splitInlineDoc hs
    have mark : '#' ∈ before ++ docMarker ++ after := by simp [docMarker]
    exact (h (Text.cutAt_eq hc ▸ mark)).elim

/-- A section keyword alone on its line. -/
def IsSectionHead (category : Category) (line : Text) : Prop :=
  ∃ keyword blanks, (keyword, category) ∈ sectionKeywords ∧ blanks.isBlankText = true ∧
    line = keyword ++ blanks

namespace IsSectionHead

/-- What the rules say of the keywords. -/
theorem keywords : ∀ entry ∈ sectionKeywords,
    entry.1.isBlankText = false ∧ entry.1.indent = 0 ∧ entry.1.contains '#' = false ∧
      routine? entry.1 = none ∧ importBullet entry.1.strip = none ∧
      includeBullet entry.1.strip = none ∧
      sectionStart? entry.1.strip = some (entry.2, []) := by
  decide

theorem margin (h : IsSectionHead category line) :
    line.isBlankText = false ∧ line.indent = 0 ∧ '#' ∉ line := by
  obtain ⟨keyword, blanks, hk, hb, rfl⟩ := h
  obtain ⟨text, indent, unmarked, -⟩ := keywords _ hk
  refine ⟨?_, (Text.indent_append text blanks).trans indent, ?_⟩
  · rw [Text.isBlankText, List.all_append, ← Text.isBlankText, text]
    rfl
  · rw [List.mem_append, not_or]
    exact ⟨by simpa using unmarked, mark_not_mem_of_blank hb⟩

theorem plain (h : IsSectionHead category line) :
    routine? line = none ∧ importBullet line.strip = none ∧ includeBullet line.strip = none := by
  obtain ⟨keyword, blanks, hk, hb, rfl⟩ := h
  obtain ⟨-, -, -, routine, imports, includes, -⟩ := keywords _ hk
  rw [routine?_trim.right keyword blanks hb, Text.strip_trim.right keyword blanks hb]
  exact ⟨routine, imports, includes⟩

theorem sectionStart? (h : IsSectionHead category line) :
    Line.sectionStart? line.strip = some (category, []) := by
  obtain ⟨keyword, blanks, hk, hb, rfl⟩ := h
  rw [Text.strip_trim.right keyword blanks hb]
  exact (keywords _ hk).2.2.2.2.2.2

end IsSectionHead

end Line

namespace Scan

variable {s s' : Scan} {line : Text} {number : Int} {category : Category} {indent : Option Nat}
  {ls : List (Int × Text)}

/-- Of some declarations, those that the scan does not leave out. -/
def admitted (s : Scan) (ds : List Declaration) : List Declaration :=
  ds.filter fun d => !s.exportedOnly || d.isExported

theorem register_outline (s : Scan) (d : Declaration) :
    (s.register d).outline =
      { s.outline with declarations := s.outline.declarations ++ s.admitted [d] } := by
  unfold register
  split
  · next left => simp_all [note, admitted]
  · next kept =>
    have stays : (!s.exportedOnly || d.isExported) = true := by
      cases hx : s.exportedOnly <;> simp_all
    simp [admitted, stays, Outline.add]

/-- Code that is not blank and has no comment, nor imports anything. -/
theorem bodyLine_of_plain (text : line.isBlankText = false) (unmarked : '#' ∉ line)
    (imports : Line.importBullet line.strip = none)
    (includes : Line.includeBullet line.strip = none) (s : Scan) (number : Int) :
    s.bodyLine number line = (s.atMargin line).declarationLine number line := by
  have plain (s : Scan) : s.importLine line.strip = none := by simp [importLine, imports, includes]
  rw [bodyLine_eq, if_neg (by simp [text]), textLine,
    if_neg (by simp [Line.isDoc_of_unmarked unmarked]), Line.splitInlineDoc_of_unmarked unmarked,
    plain]

/-- A line that is read while nothing is open. -/
theorem codeLine_of_idle (idle : s.Idle) (number : Int) (line : Text) :
    s.codeLine number line = .ok (s.bodyLine number line) := by
  rw [codeLine_eq, captured_of_inactive idle.2.2]
  exact plainLine_of_refused (fencedLine_of_closed idle.2.1)

/-! ## Below the keyword -/

/-- The scan reads the lines of a section, of which the indent may not be known yet. -/
structure Listing (s : Scan) (category : Category) (indent : Option Nat) : Prop where
  idle : s.Idle
  pending : s.pending.lines = []
  openSection : s.openSection = { category := some category, indent }

/-- What a line adds to the outline. -/
structure Adds (s s' : Scan) (ds : List Declaration) : Prop where
  exportedOnly : s'.exportedOnly = s.exportedOnly
  outline : s'.outline =
    { s.outline with declarations := s.outline.declarations ++ s.admitted ds }

namespace Listing

theorem blank (h : s.Listing category indent) (hb : line.isBlankText = true) (number : Int) :
    s.bodyLine number line = s.endDeclaration := by
  rw [bodyLine_eq, if_pos hb, flushPending_of_empty h.pending]

theorem endDeclaration (h : s.Listing category indent) :
    s.endDeclaration.Listing category indent :=
  { h with }

/-- The first line fixes the indent of the entries. -/
theorem fixed (h : s.Listing category indent) (width : Nat) :
    (s.inSection { category := some category, indent := some width }).Listing category
      (some width) :=
  { h with openSection := rfl }

theorem declareLine (h : s.Listing category indent) (text : Text) (number : Int) :
    (s.declareLine text [] number category).Listing category indent := by
  rw [declareLine_eq]
  refine ⟨?_, ?_, ?_⟩
  · simpa [Idle, Scan.endDeclaration] using h.idle
  · simpa [Scan.endDeclaration] using h.pending
  · exact (register_openSection _ _).trans h.openSection

theorem sectionEntry (h : s.Listing category indent) (text : Text) (width : Nat) (number : Int) :
    s.sectionEntry text width number =
      let fixed := s.inSection
        { category := some category, indent := some (indent.getD width) }
      if width = indent.getD width ∧ Line.isEntry text = true then
        (true, fixed.declareLine text [] number category)
      else (false, fixed) := by
  simp only [Scan.sectionEntry, h.openSection, Bool.and_eq_true, beq_iff_eq]
  rfl

theorem declarationLine (h : s.Listing category indent) (indented : line.indent ≠ 0)
    (routine : Line.routine? line = none)
    (plain : Line.leadingWord line ≠ some "runnableExamples".toList) (number : Int) :
    s.declarationLine number line = (s.sectionEntry line.strip line.indent number).2 := by
  have examples_ : Line.opensExamples line.strip = false := by
    rw [Line.opensExamples, Line.leadingWord_trim.strip]
    simpa using plain
  have closed : ¬ (!s.pending.lines.isEmpty) = true := by simp [h.pending]
  rw [Scan.declarationLine, if_neg (by simp [routine]), if_neg closed, sectionLine,
    if_neg (by simpa using indented)]
  simp only [examples_, Bool.and_false]
  rfl

end Listing

theorem adds_declareLine (s : Scan) (text : Text) (number : Int) (category : Category) :
    s.Adds (s.declareLine text [] number category) [lineDeclaration text [] number category] := by
  rw [declareLine_eq]
  refine ⟨?_, ?_⟩
  · simp [endDeclaration]
  · exact register_outline _ _

theorem Adds.nothing (h : s'.exportedOnly = s.exportedOnly) (ho : s'.outline = s.outline) :
    s.Adds s' [] := by
  refine ⟨h, ?_⟩
  rw [ho, admitted, List.filter_nil, List.append_nil]

theorem Adds.trans {s₁ s₂ : Scan} {ds ds' : List Declaration} (h : s.Adds s₁ ds)
    (h' : s₁.Adds s₂ ds') : s.Adds s₂ (ds ++ ds') := by
  refine ⟨h'.exportedOnly.trans h.exportedOnly, ?_⟩
  rw [h'.outline, h.outline]
  simp only [admitted, h.exportedOnly, List.filter_append, List.append_assoc]

/-- A line that has text adds itself, if it has the indent of the entries and is one. -/
theorem Listing.textLine (h : s.Listing category indent) (text : line.isBlankText = false)
    (listed : Line.IsListed line) (number : Int) :
    ∃ s', s.codeLine number line = .ok s' ∧
      s'.Listing category (some (indent.getD line.indent)) ∧
      s.Adds s' (Line.entriesAt (some (indent.getD line.indent)) category [(number, line)]) := by
  obtain ⟨indented, unmarked, routine, imports, includes, plain⟩ :=
    listed.resolve_left (by simp [text])
  have margin : s.atMargin line = s := by
    rw [atMargin, if_neg (by simpa using indented)]
  have fixed := h.fixed (indent.getD line.indent)
  refine ⟨_, codeLine_of_idle h.idle number line, ?_⟩
  rw [bodyLine_of_plain text unmarked imports includes, margin,
    h.declarationLine indented routine plain, h.sectionEntry]
  have entry :
      lineDeclaration line.strip [] number category = Line.entry category (number, line) := by
    simp [lineDeclaration, Line.entry, Text.strip_trim.strip]
  split
  · next here =>
    refine ⟨fixed.declareLine _ number, ?_⟩
    have here' : Line.entriesAt (some (indent.getD line.indent)) category [(number, line)] =
        [lineDeclaration line.strip [] number category] := by
      rw [entry]
      simp [Line.entriesAt, ← here.1, here.2]
    have declared := adds_declareLine
      (s.inSection ⟨some category, some (indent.getD line.indent)⟩) line.strip number category
    rw [here']
    exact ⟨declared.exportedOnly, declared.outline⟩
  · next other =>
    refine ⟨fixed, ?_⟩
    have none : Line.entriesAt (some (indent.getD line.indent)) category [(number, line)] = [] := by
      simpa [Line.entriesAt] using other
    rw [none]
    exact .nothing rfl rfl

theorem Listing.blankLine (h : s.Listing category indent) (blank : line.isBlankText = true)
    (number : Int) :
    ∃ s', s.codeLine number line = .ok s' ∧ s'.Listing category indent ∧ s.Adds s' [] := by
  refine ⟨_, codeLine_of_idle h.idle number line, ?_⟩
  rw [h.blank blank]
  exact ⟨h.endDeclaration, .nothing rfl rfl⟩

/-- The lines below a keyword add the entries among them. -/
theorem Listing.lines (h : s.Listing category indent) (listed : ∀ l ∈ ls, Line.IsListed l.2) :
    ∃ s', ls.foldlM (fun s l => s.codeLine l.1 l.2) s = .ok s' ∧
      s.Adds s' (Line.entriesAt (indent.or (Line.firstIndent? ls)) category ls) := by
  induction ls generalizing s indent with
  | nil => exact ⟨s, rfl, .nothing rfl rfl⟩
  | cons l rest ih =>
    have below := fun m hm => listed m (List.mem_cons_of_mem _ hm)
    have split (width : Option Nat) : Line.entriesAt width category (l :: rest) =
        Line.entriesAt width category [l] ++ Line.entriesAt width category rest := by
      rw [Line.entriesAt, ← List.singleton_append, List.filter_append, List.map_append]
      rfl
    cases hb : l.2.isBlankText with
    | true =>
      obtain ⟨s₁, he, h₁, added⟩ := h.blankLine hb l.1
      obtain ⟨s', hs', more⟩ := ih h₁ below
      have none (width : Option Nat) : Line.entriesAt width category [l] = [] := by
        simp [Line.entriesAt, Line.isEntry_of_blank hb]
      refine ⟨s', by rw [List.foldlM_cons, he]; exact hs', ?_⟩
      rw [Line.firstIndent?_cons_blank hb, split, none]
      exact added.trans more
    | false =>
      obtain ⟨s₁, he, h₁, added⟩ := h.textLine hb (listed l List.mem_cons_self) l.1
      obtain ⟨s', hs', more⟩ := ih h₁ below
      have width : indent.or (Line.firstIndent? (l :: rest)) = some (indent.getD l.2.indent) := by
        rw [Line.firstIndent?_cons_text hb]
        cases indent <;> rfl
      refine ⟨s', by rw [List.foldlM_cons, he]; exact hs', ?_⟩
      rw [width, split]
      exact added.trans more

theorem closeFence_exportedOnly (hs : s.Sound) : s.closeFence.exportedOnly = s.exportedOnly := by
  rcases hs.closeFence_cases with ⟨-, he⟩ | ⟨place, -, -, -, he⟩ <;> rw [he]
  rfl

/-- A section keyword alone on its line closes what is open, and the entries follow. -/
theorem codeLine_head (hs : s.Sound) (inCode : s.inCode = true) (pending : s.pending.lines = [])
    (head : Line.IsSectionHead category line) (number : Int) :
    ∃ s', s.codeLine number line = .ok s' ∧ s'.Listing category none ∧ s.closeFence.Adds s' [] := by
  obtain ⟨text, indent, unmarked⟩ := head.margin
  obtain ⟨routine, imports, includes⟩ := head.plain
  have ends : s.Ends line :=
    ⟨fun _ => ⟨text, by omega⟩, fun _ doc => by simp [Line.isDoc_of_unmarked unmarked] at doc⟩
  obtain ⟨inactive, inCode', pending', -⟩ := settled_frame hs
  have margin : s.settled.atMargin line = s.settled.accepting := by
    rw [atMargin, if_pos (by simp [indent])]
    rfl
  have closed : ¬ (!s.settled.accepting.pending.lines.isEmpty) = true := by
    simp [accepting, pending', pending]
  have opened : s.settled.accepting.declarationLine number line =
      s.settled.accepting.endDeclaration.inSection { category := some category } := by
    rw [declarationLine, if_neg (by simp [routine]), if_neg closed, sectionLine,
      if_pos (by simp [indent]), sectionStart, head.sectionStart?]
    rfl
  refine ⟨_, codeLine_of_ends hs ends number, ?_⟩
  rw [bodyLine_of_plain text unmarked imports includes, margin, opened]
  refine ⟨⟨⟨?_, ?_, ?_⟩, ?_, rfl⟩, ?_⟩
  · exact inCode'.trans inCode
  · exact closeFence_isOpen hs.endCapture
  · exact inactive
  · exact (congrArg Pending.lines pending').trans pending
  · have same : s.settled = { s.closeFence with capture := s.endCapture.capture } :=
      closeFence_capture hs _
    rw [same]
    exact .nothing rfl rfl

/-- **The entries of a section are found completely and exactly.** A section keyword alone on its
line closes what is open. Of the lines below it, under any numbers, exactly those become
declarations that have the indent of the first one with text and read as an entry, in their order;
the others add nothing. What is not exported is left out, if only exported elements are wanted. -/
theorem codeLines_section (reached : s.Reached) (inCode : s.inCode = true)
    (pending : s.pending.lines = []) (head : Line.IsSectionHead category line) (number : Int)
    {ls : List (Int × Text)} (listed : ∀ l ∈ ls, Line.IsListed l.2) :
    ∃ s', ((number, line) :: ls).foldlM (fun s l => s.codeLine l.1 l.2) s = .ok s' ∧
      s'.outline = { s.closeFence.outline with
        declarations := s.closeFence.outline.declarations ++
          ((ls.filter fun l =>
            some l.2.indent == Line.firstIndent? ls && Line.isEntry l.2.strip).map
              (Line.entry category)).filter fun d => !s.exportedOnly || d.isExported } := by
  have hs := reached.sound
  obtain ⟨s₁, he, h₁, opened⟩ := codeLine_head hs inCode pending head number
  obtain ⟨s', hs', found⟩ := h₁.lines listed
  refine ⟨s', by rw [List.foldlM_cons, he]; exact hs', ?_⟩
  rw [(opened.trans found).outline, admitted, closeFence_exportedOnly hs]
  rfl

/-- A routine of which the doc comment ends in a code block. -/
def fencedRoutine : List Text :=
  ["proc run*() =".toList, "  ## Runs".toList, "  ## .. code-block:: nim".toList,
    "  ##   run()".toList]

/-- The lines of a section: a type with fields, lines between two indents, and a blank line at the
start. -/
def typeLines : List (Int × Text) :=
  [(6, "  ".toList), (7, "  Node*[T] = ref object".toList), (8, "    next*: Node[T]".toList),
    (9, []), (10, "   size*: int".toList), (11, "  hidden = int".toList),
    (12, " Shallow* = int".toList), (13, "  Kind* = enum".toList), (14, "    first = 1".toList)]

/-- The exported entries among them. -/
def typeEntries : List Declaration :=
  [{ lineNumber := 7, isExported := true, category := .other, heading := some "Node*[T]".toList,
     code := ["Node*[T] = ref object".toList] },
   { lineNumber := 13, isExported := true, category := .other, heading := some "Kind*".toList,
     code := ["Kind* = enum".toList] }]

theorem codeLines_section_typeLines :
    ∃ s, (fresh true).lines 1 fencedRoutine = .ok s ∧ s.inCode = true ∧ s.pending.lines = [] ∧
      s.fence.isOpen = true ∧ Line.IsSectionHead .other "type \t".toList ∧
      (∀ l ∈ typeLines, Line.IsListed l.2) ∧
      ∃ s', ((5, "type \t".toList) :: typeLines).foldlM (fun s l => s.codeLine l.1 l.2) s = .ok s' ∧
        s'.outline = { s.closeFence.outline with
          declarations := s.closeFence.outline.declarations ++ typeEntries } := by
  obtain ⟨s, he, -⟩ := lines_ok true fencedRoutine
  have state : ((fresh true).lines 1 fencedRoutine).map
      (fun s => (s.exportedOnly, s.inCode, s.pending.lines, s.fence.isOpen)) =
      .ok (true, true, [], true) := by decide +kernel
  rw [he] at state
  obtain ⟨filtering, inCode, pending, opened⟩ : s.exportedOnly = true ∧ s.inCode = true ∧
      s.pending.lines = [] ∧ s.fence.isOpen = true := by simpa [Except.map] using state
  have head : Line.IsSectionHead .other "type \t".toList :=
    ⟨"type".toList, " \t".toList, by decide, by decide, rfl⟩
  have listed : ∀ l ∈ typeLines, Line.IsListed l.2 := by decide +kernel
  obtain ⟨s', hs', found⟩ := codeLines_section (.between he) inCode pending head 5 listed
  refine ⟨s, he, inCode, pending, opened, head, listed, s', hs', found.trans ?_⟩
  rw [filtering]
  have entries : ((typeLines.filter fun l =>
      some l.2.indent == Line.firstIndent? typeLines && Line.isEntry l.2.strip).map
        (Line.entry .other)).filter (fun d => !true || d.isExported) = typeEntries := by
    decide +kernel
  rw [entries]

end Scan

end NimMarkdown
