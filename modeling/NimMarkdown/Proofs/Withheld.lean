import NimMarkdown.Proofs.Exported
import NimMarkdown.Proofs.Faithful

/-!
# Below an element that is left out

Behind an element that is not exported, and is left out, a scan takes no doc
lines. `Scan.Withholds` is such a state: nothing is open that could be written to,
and what has been read of a signature is not exported. The lines inside of the
element (`Line.IsInner`) may begin routines, hold doc comments, entries, code blocks
and examples; none of them leads out of the state, and the outline stays as it is.
There is one lemma for each operation that such a line can reach.
-/

namespace NimMarkdown

/-- A line inside of an element with nothing exported in it: a blank line, or an indented one
that is a doc comment or whose code neither is exported nor imports anything. -/
def Line.IsInner (line : Text) : Prop :=
  line.isBlankText = true ∨ line.indent ≠ 0 ∧ (isDoc line = true ∨
    isExported (codePart line) = false ∧ importBullet (codePart line).strip = none ∧
      includeBullet (codePart line).strip = none)

instance : DecidablePred Line.IsInner := fun line =>
  inferInstanceAs (Decidable (line.isBlankText = true ∨ _ ∧ (_ ∨ _ ∧ _ ∧ _)))

namespace Scan

variable {s s' : Scan} {o : Outline} {line code doc : Text} {number : Int} {d : Declaration}

/-- The scan leaves out what it reads, and has come to the outline `o`. -/
structure Withholds (s : Scan) (o : Outline) : Prop where
  outline : s.outline = o
  filtering : s.exportedOnly = true
  silent : s.admitting = false
  current : s.current = none
  closed : s.fence.isOpen = false
  pending : ∀ line ∈ s.pending.lines, Line.isExported line = false

/-- Where doc lines are not taken, nothing is open that they could go to. -/
theorem Sound.withholds (hs : s.Sound) (silent : s.admitting = false)
    (pending : ∀ line ∈ s.pending.lines, Line.isExported line = false) :
    s.Withholds s.outline where
  outline := rfl
  filtering := by
    cases hx : s.exportedOnly with
    | true => rfl
    | false => exact nomatch (hs.admitting hx).symm.trans silent
  silent
  current := hs.current_of_silent silent
  closed := hs.closed_of_silent silent
  pending

/-! ## Declarations -/

theorem Withholds.register (h : s.Withholds o) (hd : d.isExported = false) :
    (s.register d).Withholds o := by
  have left : (s.exportedOnly && !d.isExported) = true := by rw [h.filtering, hd]; rfl
  rw [Scan.register, if_pos left]
  exact { h with current := rfl, silent := rfl }

/-- Another signature may be open, or none. -/
theorem Withholds.reading (h : s.Withholds o) (p : Pending)
    (hp : ∀ line ∈ p.lines, Line.isExported line = false) :
    Withholds { s with pending := p } o :=
  { h with pending := hp }

theorem Withholds.flushPending (h : s.Withholds o) : s.flushPending.Withholds o := by
  unfold Scan.flushPending
  split
  · exact h
  · next first rest hl =>
    have cleared : Withholds { s with pending := { s.pending with lines := [] } } o :=
      h.reading _ fun _ hl => (List.not_mem_nil hl).elim
    refine cleared.register ?_
    exact List.any_eq_false.2 fun line hm => by simp [h.pending line (hl ▸ hm)]

theorem Withholds.endDeclaration (h : s.Withholds o) : s.endDeclaration.Withholds o :=
  { h with current := rfl }

theorem Withholds.inSection (h : s.Withholds o) (section_ : OpenSection) :
    (s.inSection section_).Withholds o :=
  { h with }

theorem Withholds.startDeclaration (h : s.Withholds o) (hl : Line.isExported line = false)
    (number : Int) : (s.startDeclaration line number).Withholds o := by
  have begun := h.flushPending.endDeclaration.reading { lines := [line], lineNumber := number }
    fun l hm => List.mem_singleton.1 hm ▸ hl
  simp only [Scan.startDeclaration]
  split
  · exact begun.flushPending
  · exact begun

theorem Withholds.continueDeclaration (h : s.Withholds o) (hl : Line.isExported line = false) :
    (s.continueDeclaration line).Withholds o := by
  have longer : Withholds
      { s with pending := { s.pending with lines := s.pending.lines ++ [line] } } o := by
    refine h.reading _ fun l hm => ?_
    rcases List.mem_append.1 hm with hm | hm
    · exact h.pending l hm
    · exact List.mem_singleton.1 hm ▸ hl
  simp only [Scan.continueDeclaration]
  split
  · exact longer.flushPending
  · exact longer

theorem Withholds.declareLine (h : s.Withholds o) (hc : Line.isExported code = false) (doc : Text)
    (number : Int) (category : Category) :
    (s.declareLine code doc number category).Withholds o := by
  rw [declareLine_eq]
  exact h.endDeclaration.register hc

theorem Withholds.dropPending (h : s.Withholds o) (number : Int) :
    (s.dropPending number).Withholds o := by
  unfold Scan.dropPending
  split
  · exact h
  · exact { h with pending := nofun }

theorem Withholds.inlineDoc (h : s.Withholds o) (hc : Line.isExported code = false) (doc : Text)
    (number : Int) : (s.inlineDoc code doc number).Withholds o := by
  rw [inlineDoc_eq]
  exact ((h.dropPending number).inSection _).declareLine hc doc number _

/-! ## Lines -/

theorem Withholds.docLine (h : s.Withholds o) (line : Text) : (s.docLine line).Withholds o := by
  rw [docLine_eq]
  split
  · exact h
  · rw [takeDoc, if_neg (by simp [h.flushPending.silent])]
    exact h.flushPending

theorem Withholds.sectionEntry (h : s.Withholds o) {text : Text}
    (ht : Line.isExported text = false) (indent : Nat) (number : Int) :
    (s.sectionEntry text indent number).2.Withholds o := by
  unfold Scan.sectionEntry
  split
  · exact h
  · simp only
    split
    · exact (h.inSection _).declareLine ht [] number _
    · exact h.inSection _

theorem Withholds.declarationLine (h : s.Withholds o) (hi : line.indent ≠ 0)
    (hl : Line.isExported line = false) (number : Int) :
    (s.declarationLine number line).Withholds o := by
  unfold Scan.declarationLine
  split
  · exact (h.inSection { s.openSection with category := none }).startDeclaration hl number
  · split
    · exact h.continueDeclaration hl
    · have trimmed : Line.isExported line.strip = false :=
        (Line.isExported_trim.strip line).trans hl
      have entered : (s.sectionLine line number).2.Withholds o := by
        rw [sectionLine, if_neg (by simpa using hi)]
        exact h.sectionEntry trimmed line.indent number
      simp only
      split
      · exact { entered with }
      · exact entered

theorem Withholds.textLine (h : s.Withholds o) (hi : line.indent ≠ 0)
    (inner : Line.isDoc line = true ∨ Line.isExported (Line.codePart line) = false ∧
      Line.importBullet (Line.codePart line).strip = none ∧
        Line.includeBullet (Line.codePart line).strip = none) (number : Int) :
    (s.textLine number line).Withholds o := by
  unfold Scan.textLine
  split
  · exact h.docLine line
  · next hd =>
    have hd : Line.isDoc line = false := by simpa using hd
    obtain ⟨hx, himport, hinclude⟩ := inner.resolve_left (by simp [hd])
    split
    · next code doc hs =>
      obtain ⟨before, after, hc, rfl⟩ := Line.cutAt_of_splitInlineDoc hs
      rw [Line.codePart, hc] at hx
      exact h.inlineDoc ((Line.isExported_trim.stripRight before).trans hx) doc number
    · next hs =>
      rw [Line.codePart_of_bare (Line.cutAt_of_bare hd hs)] at hx himport hinclude
      have plain : s.importLine line.strip = none := by simp [importLine, himport, hinclude]
      rw [plain]
      exact h.declarationLine hi hx number

theorem Withholds.bodyLine (h : s.Withholds o) (inner : Line.IsInner line) (number : Int) :
    (s.bodyLine number line).Withholds o := by
  rw [bodyLine_eq]
  split
  · exact h.flushPending.endDeclaration
  · next hb =>
    obtain ⟨hi, inner⟩ := inner.resolve_left hb
    rw [atMargin, if_neg (by simpa using hi)]
    exact h.textLine hi inner number

/-- Examples of an element that is left out are dropped. -/
theorem Withholds.captured (h : s.Withholds o) (line : Text) :
    (s.captured line).2.Withholds o := by
  unfold Scan.captured
  split
  · unfold captureLine
    split
    · exact { h with }
    · rw [h.current]
      exact h
  · exact h

/-- A line inside of an element that is left out is left out. -/
theorem Withholds.codeLine (h : s.Withholds o) (inner : Line.IsInner line) (number : Int) :
    ∃ s', s.codeLine number line = .ok s' ∧ s'.Withholds o := by
  have captured := h.captured line
  rw [codeLine_eq]
  split
  · exact ⟨_, rfl, captured⟩
  · exact ⟨_, plainLine_of_refused (fencedLine_of_closed captured.closed),
      captured.bodyLine inner number⟩

theorem Withholds.codeLines (h : s.Withholds o) {ls : List (Int × Text)}
    (inner : ∀ l ∈ ls, Line.IsInner l.2) :
    ∃ s', ls.foldlM (fun s l => s.codeLine l.1 l.2) s = .ok s' ∧ s'.Withholds o := by
  induction ls generalizing s with
  | nil => exact ⟨s, rfl, h⟩
  | cons l rest ih =>
    obtain ⟨s1, he, h1⟩ := h.codeLine (inner l List.mem_cons_self) l.1
    obtain ⟨s', hs', h'⟩ := ih h1 fun m hm => inner m (List.mem_cons_of_mem _ hm)
    exact ⟨s', by rw [List.foldlM_cons, he]; exact hs', h'⟩

/-- **What is left out leaves nothing behind.** Where a scan does not take doc lines, and has
read no exported line of a signature, any lines of the inside of an element are read, under any
numbers, without a change of the outline, and doc lines are not taken behind them either. -/
theorem codeLines_withheld (reached : s.Reached) (silent : s.admitting = false)
    (pending : ∀ line ∈ s.pending.lines, Line.isExported line = false) {ls : List (Int × Text)}
    (inner : ∀ l ∈ ls, Line.IsInner l.2) :
    ∃ s', ls.foldlM (fun s l => s.codeLine l.1 l.2) s = .ok s' ∧ s'.outline = s.outline ∧
      s'.admitting = false := by
  obtain ⟨s', he, h⟩ := (reached.sound.withholds silent pending).codeLines inner
  exact ⟨s', he, h.outline, h.silent⟩

/-- A routine that is not exported, with a routine inside of which a line is missing. -/
def hidingRoutine : List Text := ["proc hide() =".toList, "  proc inner(".toList]

/-- What may stand below it. -/
def hiddenLines : List (Int × Text) :=
  [(3, "    x: int) =".toList), (4, "    ## Hidden".toList), (5, []),
    (6, "    ## .. code-block:: nim".toList), (7, "    ##   inner(1)".toList),
    (8, "    runnableExamples:".toList), (9, "      hide()".toList),
    (0, "  var count: int ## Counts".toList), (11, "  ## TODO".toList)]

theorem codeLines_withheld_hiddenLines :
    ∃ s, (fresh true).lines 1 hidingRoutine = .ok s ∧ s.admitting = false ∧
      s.pending.lines = ["  proc inner(".toList] ∧
      (∀ line ∈ s.pending.lines, Line.isExported line = false) ∧
      (∀ l ∈ hiddenLines, Line.IsInner l.2) ∧
      ∃ s', hiddenLines.foldlM (fun s l => s.codeLine l.1 l.2) s = .ok s' ∧
        s'.outline = s.outline ∧ s'.admitting = false := by
  obtain ⟨s, he, -⟩ := lines_ok true hidingRoutine
  have state : ((fresh true).lines 1 hidingRoutine).map (fun s => (s.admitting, s.pending.lines)) =
      .ok (false, ["  proc inner(".toList]) := by decide +kernel
  rw [he] at state
  obtain ⟨silent, lines⟩ := Prod.mk.inj (Except.ok.inj state)
  have pending : ∀ line ∈ s.pending.lines, Line.isExported line = false := by
    rw [show s.pending.lines = _ from lines]
    decide +kernel
  have inner : ∀ l ∈ hiddenLines, Line.IsInner l.2 := by decide +kernel
  exact ⟨s, he, silent, lines, pending, inner,
    codeLines_withheld (.between he) silent pending inner⟩

end Scan

end NimMarkdown
