import NimMarkdown.Proofs.DocAgreement
import NimMarkdown.Proofs.SectionEntries

/-!
# An element behind its keyword

A section keyword with an entry behind it declares this entry and nothing else. No other
rule takes the line, as `const`, `let`, `var` and `type` begin neither a routine nor an
import; so a source of this one line has one element, or none where only exported
elements are wanted.
-/

namespace NimMarkdown

namespace Line

variable {line : Text} {category : Category}

/-- A section keyword with an entry behind it. -/
def IsElement (category : Category) (line : Text) : Prop :=
  ∃ keyword rest : Text, (keyword, category) ∈ sectionKeywords ∧ isEntry rest.strip = true ∧
    line = keyword ++ ' ' :: rest

/-- The line begins with its keyword, which ends at the space. -/
theorem leadingWord_keyword {keyword : Text} (h : (keyword, category) ∈ sectionKeywords)
    (rest : Text) : Text.stripLeft (keyword ++ ' ' :: rest) = keyword ++ ' ' :: rest ∧
      leadingWord (keyword ++ ' ' :: rest) = some keyword := by
  simp only [sectionKeywords, List.mem_cons, List.not_mem_nil, or_false, Prod.mk.injEq] at h
  obtain ⟨rfl, -⟩ | ⟨rfl, -⟩ | ⟨rfl, -⟩ | ⟨rfl, -⟩ := h <;> exact ⟨rfl, rfl⟩

theorem unmarked_of_isEntry {t : Text} (h : isEntry t.strip = true) : '#' ∉ t := by
  rw [isEntry, Bool.and_eq_true, contains_mark_trim.strip] at h
  simpa using h.1

theorem leadingWord_of_isMainGuard (h : isMainGuard line = true) :
    leadingWord line = some "when".toList := by
  rw [← leadingWord_trim.strip, beq_iff_eq.1 h]
  decide

namespace IsElement

/-- What the other rules say of the keywords. -/
theorem keywords : ∀ entry ∈ sectionKeywords,
    routineKeywords.lookup entry.1 = none ∧ sectionKeywords.lookup entry.1 = some entry.2 ∧
      entry.1 ∉ ["import".toList, "from".toList, "include".toList] ∧
      entry.1 ≠ "when".toList := by
  decide

theorem margin (h : IsElement category line) :
    line.isBlankText = false ∧ line.indent = 0 ∧ '#' ∉ line := by
  obtain ⟨keyword, rest, hk, he, rfl⟩ := h
  obtain ⟨text, indent, unmarked, -⟩ := IsSectionHead.keywords _ hk
  refine ⟨?_, (Text.indent_append text _).trans indent, ?_⟩
  · rw [Text.isBlankText, List.all_append, ← Text.isBlankText, text]
    rfl
  · rw [List.mem_append, List.mem_cons, not_or, not_or]
    exact ⟨by simpa using unmarked, by decide, unmarked_of_isEntry he⟩

/-- The line opens nothing but its element. -/
theorem plain (h : IsElement category line) :
    isMainGuard line = false ∧ routine? line = none ∧
      importBullet line.strip = none ∧ includeBullet line.strip = none := by
  have unmarked := h.margin.2.2
  obtain ⟨keyword, rest, hk, -, rfl⟩ := h
  obtain ⟨routine, -, imports, guard⟩ := keywords _ hk
  have word := (leadingWord_keyword hk rest).2
  refine ⟨?_, ?_, bullets_of_leadingWord unmarked word imports⟩
  · rw [← Bool.not_eq_true]
    intro guarded
    rw [leadingWord_of_isMainGuard guarded] at word
    exact guard (Option.some.inj word).symm
  · rw [routine?, word, Option.bind_some, routine, ite_self]

theorem sectionStart? (h : IsElement category line) :
    ∃ rest, Line.sectionStart? line.strip = some (category, rest) ∧ isEntry rest = true := by
  obtain ⟨keyword, rest, hk, he, rfl⟩ := h
  obtain ⟨here, word⟩ := leadingWord_keyword hk rest
  refine ⟨rest.strip, ?_, he⟩
  have inside : Text.strip (' ' :: rest) = rest.strip := rfl
  have filled : Text.isBlankText (' ' :: rest) = false := by
    rw [← Bool.not_eq_true]
    intro blank
    rw [← inside, Text.strip_eq_nil_iff.2 blank] at he
    cases he
  have split : Text.strip (keyword ++ ' ' :: rest) = keyword ++ Text.stripRight (' ' :: rest) := by
    rw [Text.strip, here, Text.stripRight_append keyword filled]
  rw [Line.sectionStart?, leadingWord_trim.strip, word, Option.bind_some, (keywords _ hk).2.1,
    Option.map_some, split, List.drop_left, Text.strip_trim.stripRight, inside]

end IsElement

end Line

namespace Scan

variable {s : Scan} {line : Text} {category : Category}

theorem bodyLine_element (h : Line.IsElement category line) (pending : s.pending.lines = [])
    (number : Int) : s.bodyLine number line =
      ((s.atMargin line).inSection {}).declareLine line.strip [] number category := by
  obtain ⟨text, indent, unmarked⟩ := h.margin
  obtain ⟨-, routine, imports, includes⟩ := h.plain
  obtain ⟨rest, start, entry⟩ := h.sectionStart?
  have filled : rest.isEmpty = false := by
    cases rest with
    | nil => cases entry
    | cons c r => rfl
  have closed : (s.atMargin line).pending.lines = [] := by
    rw [atMargin]
    split <;> exact pending
  rw [bodyLine_of_plain text unmarked imports includes, declarationLine, if_neg (by simp [routine]),
    if_neg (by simp [closed]), sectionLine, if_pos (by simp [indent]), sectionStart, start]
  simp only [filled, entry, Bool.false_eq_true, if_false, if_true]
  rfl

/-- The state at the first line of a source that begins with code. -/
def entered (exportedOnly : Bool) (number : Int) : Scan :=
  enterCode { fresh exportedOnly with docSeen := true } number

theorem line_fresh (text : line.isBlankText = false) (unmarked : '#' ∉ line)
    (guard : Line.isMainGuard line = false) (exportedOnly : Bool) (number : Int) :
    (fresh exportedOnly).line number line = (entered exportedOnly number).codeLine number line := by
  have noDoc : Text.startsWith Line.docMarker line = false := by
    rw [← Bool.not_eq_true]
    exact fun doc => unmarked (Line.mark_mem_of_startsWith doc)
  have noComment : Line.isPlainComment line = false := by
    rw [Line.isPlainComment, Bool.and_eq_false_iff, ← Bool.not_eq_true]
    exact .inl fun comment =>
      unmarked ((List.isPrefixOf_iff_prefix.1 comment).subset List.mem_cons_self)
  have refused : (fresh exportedOnly).takeTop line =
      .ok (false, { fresh exportedOnly with docSeen := true }) := by
    simp [takeTop, fresh, noDoc, noComment, text]
  rw [Scan.line, guard, if_neg Bool.false_ne_true, refused]
  rfl

theorem line_element (h : Line.IsElement category line) (exportedOnly : Bool) (number : Int) :
    (fresh exportedOnly).line number line =
      .ok (((entered exportedOnly number).inSection {}).declareLine line.strip [] number
        category) := by
  obtain ⟨text, indent, unmarked⟩ := h.margin
  have idle : (entered exportedOnly number).Idle := ⟨rfl, rfl, rfl⟩
  have margin : (entered exportedOnly number).atMargin line = entered exportedOnly number := by
    rw [atMargin, if_pos (by simp [indent])]
    rfl
  rw [line_fresh text unmarked h.plain.1, codeLine_of_idle idle, bodyLine_element h rfl, margin]

/-- Behind an element of one line nothing is open. -/
theorem finish_declareLine (idle : s.Idle) (pending : s.pending.lines = []) (code doc : Text)
    (number : Int) (category : Category) : (s.declareLine code doc number category).finish =
      (s.declareLine code doc number category).endDeclaration := by
  obtain ⟨fence, kept, -, inCode, -⟩ :=
    register_frame s.endDeclaration (lineDeclaration code doc number category)
  rw [← declareLine_eq] at fence kept inCode
  rw [finish_of_closed (inCode.trans idle.1) ((congrArg Fence.isOpen fence).trans idle.2.1),
    flushPending_of_empty ((congrArg Pending.lines kept).trans pending)]

theorem sourceLines_of_line (unbroken : '\n' ∉ line ∧ '\r' ∉ line) : sourceLines line = [line] := by
  have single : Text.joinLines [line] = line := by simp [Text.joinLines]
  have lines := sourceLines_joinLines (List.cons_ne_nil line []) (by simpa using unbroken)
  rwa [single] at lines

/-- The element of a source that has only one line. -/
theorem source_element (exportedOnly : Bool) (h : Line.IsElement category line)
    (unbroken : '\n' ∉ line ∧ '\r' ∉ line) :
    ∃ s, source exportedOnly line = .ok s ∧ s.outline =
      { declarations :=
          (fresh exportedOnly).admitted [lineDeclaration line.strip [] 1 category] } := by
  have read := line_element h exportedOnly 1
  have finished := finish_declareLine (s := (entered exportedOnly 1).inSection {}) ⟨rfl, rfl, rfl⟩
    rfl line.strip [] 1 category
  refine ⟨_, source_of_lines ?_,
    (congrArg outline finished).trans (adds_declareLine _ _ _ _).outline⟩
  rw [sourceLines_of_line unbroken]
  exact lines_cons read []

end Scan

namespace Source

/-- **An element behind its keyword** is all that a source of this one line declares. -/
theorem outline_element {settings : Settings} {options : Options}
    (valid : settings.validate = .ok options) {category : Category} {line : Text}
    (h : Line.IsElement category line) (unbroken : '\n' ∉ line ∧ '\r' ∉ line) :
    outline settings line = .ok
      { declarations := if options.on .exportedOnly && !Line.isExported line then []
          else [Scan.lineDeclaration line.strip [] 1 category] } := by
  obtain ⟨s, read, declared⟩ := Scan.source_element (options.on .exportedOnly) h unbroken
  have exported : (Scan.lineDeclaration line.strip [] 1 category).isExported =
      Line.isExported line := Line.isExported_trim.strip line
  rw [outline_of_source valid read, declared, Scan.admitted, List.filter_singleton, exported]
  cases options.on .exportedOnly <;> cases Line.isExported line <;> rfl

end Source

end NimMarkdown
