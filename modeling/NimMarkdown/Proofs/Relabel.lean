import NimMarkdown.Proofs.Steps

/-!
# What a scan takes down without reading it

The numbers of the lines go into the declarations and the log, and nothing depends
on them. The other two labels of a state are read in one place each: whether only
exported elements are wanted where a declaration is registered, the open section
where an element may belong to one. `Scan.relabel` changes all three. Each operation
of a scan that does not read a label does the same whatever it is:
first those on texts, which read none, then those that may register a declaration,
then those on sections. `lines_relabel` puts them together for a run whose lines are
numbered otherwise.
-/

namespace NimMarkdown

variable {number : Int → Int}

def Declaration.relabel (number : Int → Int) (d : Declaration) : Declaration :=
  { d with lineNumber := number d.lineNumber }

def Event.relabel (number : Int → Int) : Event → Event
  | .codeReached line => .codeReached (number line)
  | .discarded heading line => .discarded heading (number line)
  | .replaced line pendingLine => .replaced (number line) (number pendingLine)

/-- Other labels for a scan. The number zero of narratives stays. -/
structure Relabeling where
  exportedOnly : Bool → Bool := id
  openSection : OpenSection → OpenSection := id
  number : Int → Int := id
  narrative : number 0 = 0 := by rfl

namespace Outline

def relabel (o : Outline) (number : Int → Int) : Outline :=
  { o with declarations := o.declarations.map (·.relabel number) }

theorem relabel_id (o : Outline) : o.relabel id = o := by
  have same : o.declarations.map (·.relabel id) = o.declarations := List.map_id' _
  rw [relabel, same]

theorem linesAt_relabel (o : Outline) (number : Int → Int) (place : Place) :
    (o.relabel number).linesAt place = o.linesAt place := by
  cases place with
  | topMatter => rfl
  | comment index => simp [linesAt, relabel, Declaration.relabel, Function.comp_def]

theorem modify_relabel (o : Outline) (index : Nat) {g : Declaration → Declaration}
    (hg : ∀ d, g (d.relabel number) = (g d).relabel number) :
    (o.relabel number).modify index g = (o.modify index g).relabel number := by
  have same : (o.declarations.map (·.relabel number)).modify index g =
      (o.declarations.modify index g).map (·.relabel number) := by
    refine List.ext_getElem? fun i => ?_
    rw [List.getElem?_modify, List.getElem?_map, List.getElem?_map, List.getElem?_modify]
    split <;> simp [Function.comp_def, hg]
  rw [modify, relabel, same]
  rfl

theorem modifyLines_relabel (o : Outline) (place : Place) (f : List Text → List Text) :
    (o.relabel number).modifyLines place f = (o.modifyLines place f).relabel number := by
  cases place with
  | topMatter => rfl
  | comment index => exact o.modify_relabel index fun _ => rfl

theorem add_relabel (o : Outline) (d : Declaration) :
    (o.relabel number).add (d.relabel number) = (o.add d).relabel number := by
  simp [add, relabel]

end Outline

namespace Scan

variable {s s' : Scan} {r : Relabeling} {text line : Text} {taken : Bool} {n : Int}

def relabel (s : Scan) (r : Relabeling) : Scan :=
  { s with
    exportedOnly := r.exportedOnly s.exportedOnly
    openSection := r.openSection s.openSection
    pending := { s.pending with lineNumber := r.number s.pending.lineNumber }
    outline := s.outline.relabel r.number
    log := s.log.map (·.relabel r.number) }

/-- Where the numbers stay, only the other two labels change. -/
theorem relabel_of_numbers (s : Scan) (e : Bool → Bool) (o : OpenSection → OpenSection) :
    s.relabel { exportedOnly := e, openSection := o } =
      { s with exportedOnly := e s.exportedOnly, openSection := o s.openSection } := by
  have events : s.log.map (·.relabel id) = s.log := by
    refine (List.map_congr_left fun event _ => ?_).trans (List.map_id s.log)
    cases event <;> rfl
  simp only [relabel, Outline.relabel_id, events, id]

/-! ## Texts -/

theorem edit_relabel (s : Scan) (place : Place) (f : List Text → List Text) :
    (s.relabel r).edit place f = (s.edit place f).relabel r := by
  simp only [edit, relabel, Outline.modifyLines_relabel]

theorem appendLine_relabel (s : Scan) (place : Place) (line : Text) :
    (s.relabel r).appendLine place line = (s.appendLine place line).relabel r :=
  s.edit_relabel place _

theorem openFence_relabel (s : Scan) (place : Place) (text : Text) :
    (s.relabel r).openFence place text = (s.openFence place text).relabel r := by
  rw [openFence, appendLine_relabel]
  rfl

theorem closeFence_relabel (s : Scan) : (s.relabel r).closeFence = s.closeFence.relabel r := by
  cases ho : s.fence.isOpen with
  | false => rw [closeFence_of_closed (s := s.relabel r) ho, closeFence_of_closed ho]
  | true =>
    cases hp : s.fence.place with
    | none => simp [closeFence, relabel, hp]
    | some place =>
      rw [closeFence_of_open (s := s.relabel r) ho hp, closeFence_of_open ho hp, edit_relabel]
      rfl

theorem commitHeld_relabel (s : Scan) : (s.relabel r).commitHeld = s.commitHeld.relabel r := by
  cases hh : s.held with
  | none => simp [commitHeld, relabel, hh]
  | some text => simp only [commitHeld, relabel, appendLine, hh]; rfl

theorem writeFenced_relabel (s : Scan) (place : Place) (width : Nat) (text : Text) :
    (s.relabel r).writeFenced place width text = (s.writeFenced place width text).relabel r := by
  rw [writeFenced_eq, writeFenced_eq, edit_relabel]
  rfl

theorem feedFence_relabel (h : s.feedFence text = .ok (taken, s')) :
    (s.relabel r).feedFence text = .ok (taken, s'.relabel r) := by
  have close (t : Scan) : (Except.ok (false, (t.relabel r).closeFence) : Except Failure _) =
      .ok (false, t.closeFence.relabel r) := by rw [closeFence_relabel]
  unfold feedFence at h ⊢
  split at h
  · next hc =>
    cases h
    exact (if_pos hc).trans (close s)
  · next hc =>
    rw [if_neg hc]
    split at h
    · next hb =>
      rw [if_pos hb]
      split at h
      · next hs =>
        cases h
        exact if_pos hs
      · next hs =>
        refine (if_neg hs).trans ?_
        split at h
        · next hh =>
          cases h
          exact (if_pos hh).trans (close { s with fence := { s.fence with blankHeld := false } })
        · next hh =>
          cases h
          exact if_neg hh
    · next hb =>
      rw [if_neg hb]
      cases text with
      | nil => cases h
      | cons first rest =>
        dsimp only at h ⊢
        split at h
        · next hf =>
          rw [if_pos hf]
          split at h
          · cases h
          · next place hp =>
            cases h
            split
            · next hn => exact nomatch hp.symm.trans hn
            · next q hq =>
              obtain rfl : place = q := Option.some.inj (hp.symm.trans hq)
              exact congrArg (fun t => Except.ok (true, t))
                (writeFenced_relabel (s.indented _) place _ _)
        · next hf =>
          cases h
          rw [if_neg hf]
          exact close s

theorem topText_relabel (s : Scan) (text : Text) :
    (s.relabel r).topText text = (s.topText text).relabel r := by
  simp only [topText]
  split
  · rw [commitHeld_relabel, openFence_relabel]
  · cases hh : s.held with
    | none => simp [relabel, hh]
    | some above =>
      simp only [show (s.relabel r).held = some above from hh]
      split
      · rw [appendLine_relabel]
        rfl
      · rw [appendLine_relabel]
        rfl

theorem topLine_relabel (h : s.topLine text = .ok s') :
    (s.relabel r).topLine text = .ok (s'.relabel r) := by
  unfold topLine at h ⊢
  split at h
  · next ho =>
    refine (if_pos ho).trans ?_
    cases hf : s.feedFence text with
    | error failure => simp [hf, bind, Except.bind] at h
    | ok answer =>
      obtain ⟨taken, t⟩ := answer
      rw [hf] at h
      rw [feedFence_relabel hf]
      cases h
      cases taken with
      | true => rfl
      | false => exact congrArg Except.ok (topText_relabel t text)
  · next ho =>
    cases h
    exact (if_neg ho).trans (congrArg Except.ok (topText_relabel s text))

theorem topDoc_relabel (h : s.topDoc line = .ok (taken, s')) :
    (s.relabel r).topDoc line = .ok (taken, s'.relabel r) := by
  unfold topDoc at h ⊢
  split at h
  · next hd =>
    rw [if_pos hd]
    cases ht : s.topLine (Line.docText line) with
    | error failure => simp [ht, bind, Except.bind] at h
    | ok t =>
      rw [ht] at h
      rw [topLine_relabel ht]
      cases h
      rfl
  · next hd =>
    rw [if_neg hd]
    split at h <;> cases h <;> rfl

theorem topComment_relabel (h : s.topComment line = .ok s') :
    (s.relabel r).topComment line = .ok (s'.relabel r) := by
  unfold topComment at h ⊢
  split at h
  · next hc =>
    rw [if_pos hc]
    split at h
    · next hs => exact (if_pos hs).trans (topLine_relabel h)
    · next hs =>
      cases h
      exact if_neg hs
  · next hc =>
    cases h
    exact if_neg hc

theorem takeTop_relabel (h : s.takeTop line = .ok (taken, s')) :
    (s.relabel r).takeTop line = .ok (taken, s'.relabel r) := by
  unfold takeTop at h ⊢
  split at h
  · next hd => exact (if_pos hd).trans (topDoc_relabel h)
  · next hd =>
    refine (if_neg hd).trans ?_
    split at h
    · next hm => exact (if_pos hm).trans (topDoc_relabel h)
    · next hm =>
      rw [if_neg hm]
      split at h
      · next hc =>
        rw [if_pos hc]
        cases ht : s.topComment line with
        | error failure => simp [ht, bind, Except.bind] at h
        | ok t =>
          rw [ht] at h
          rw [topComment_relabel ht]
          cases h
          rfl
      · next hc =>
        rw [if_neg hc]
        split at h
        · next hb =>
          cases h
          exact if_pos hb
        · next hb =>
          cases h
          exact if_neg hb

theorem enterCode_relabel (s : Scan) (n : Int) :
    (s.relabel r).enterCode (r.number n) = (s.enterCode n).relabel r := by
  unfold enterCode
  rw [commitHeld_relabel, closeFence_relabel]
  simp [note, relabel, Event.relabel]

theorem addExample_relabel (s : Scan) (index : Nat) (text : Text) :
    (s.relabel r).addExample index text = (s.addExample index text).relabel r := by
  simp only [addExample, relabel]
  congr 1
  exact s.outline.modify_relabel index fun _ => rfl

theorem addBlankExample_relabel (s : Scan) (index : Nat) :
    (s.relabel r).addBlankExample index = (s.addBlankExample index).relabel r := by
  simp only [addBlankExample, relabel]
  congr 1
  refine s.outline.modify_relabel index fun d => ?_
  cases h : d.examples.isEmpty <;> simp [h, Declaration.relabel]

theorem captureLine_relabel (h : s.captureLine line = (taken, s')) :
    (s.relabel r).captureLine line = (taken, s'.relabel r) := by
  unfold captureLine at h ⊢
  split at h
  · next hc =>
    cases h
    exact if_pos hc
  · next hc =>
    refine (if_neg hc).trans ?_
    split at h
    · next hn =>
      cases h
      simp only [show (s.relabel r).current = none from hn]
    · next index hi =>
      split
      · next hn => exact nomatch hi.symm.trans hn
      · next other ho =>
        obtain rfl : index = other := Option.some.inj (hi.symm.trans ho)
        split at h
        · next hb =>
          cases h
          rw [if_pos hb, addBlankExample_relabel]
        · next hb =>
          cases h
          refine (if_neg hb).trans (congrArg (Prod.mk true) ?_)
          exact addExample_relabel { s with
            capture := { s.capture with
              bodyIndent := some (s.capture.bodyIndent.getD line.indent) } } index _

theorem captured_relabel (s : Scan) (line : Text) :
    (s.relabel r).captured line = ((s.captured line).1, (s.captured line).2.relabel r) := by
  unfold captured
  split
  · next h =>
    rw [if_pos (show s.capture.active = true from h)]
    exact captureLine_relabel rfl
  · next h => rw [if_neg (show ¬ s.capture.active = true from h)]

theorem fencedLine_relabel (h : s.fencedLine line = .ok (taken, s')) :
    (s.relabel r).fencedLine line = .ok (taken, s'.relabel r) := by
  unfold fencedLine at h ⊢
  split at h
  · next ho =>
    refine (if_pos ho).trans ?_
    split at h
    · next hd =>
      rw [if_pos hd]
      cases hf : s.feedFence (Line.docText line) with
      | error failure => simp [hf, bind, Except.bind] at h
      | ok answer =>
        obtain ⟨taken, t⟩ := answer
        rw [hf] at h
        rw [feedFence_relabel hf]
        cases taken with
        | true =>
          cases h
          rfl
        | false =>
          cases h
          exact congrArg (fun t => Except.ok (false, t)) (closeFence_relabel t)
    · next hd =>
      cases h
      rw [if_neg hd, closeFence_relabel]
  · next ho =>
    cases h
    exact if_neg ho

theorem commentPlace_relabel (s : Scan) :
    (s.relabel r).commentPlace = (s.commentPlace.1, s.commentPlace.2.relabel r) := by
  cases hc : s.current with
  | some index => simp [commentPlace, relabel, hc]
  | none =>
    cases hn : s.narrative with
    | some place => simp [commentPlace, relabel, hc, hn]
    | none =>
      cases hl : s.lastCategory with
      | some category =>
        simp [commentPlace, relabel, hc, hn, hl, Outline.relabel, Outline.add, Declaration.relabel,
          r.narrative]
      | none =>
        cases ht : s.outline.topMatter.getLast? with
        | none => simp [commentPlace, relabel, hc, hn, hl, ht, Outline.relabel]
        | some last =>
          cases last <;> simp [commentPlace, relabel, appendLine, hc, hn, hl, ht, Outline.relabel,
            Outline.appendLine, Outline.modifyLines]

theorem docTextAt_relabel (s : Scan) (place : Place) (text : Text) :
    (s.relabel r).docTextAt place text = (s.docTextAt place text).relabel r := by
  have lines : (s.relabel r).outline.linesAt place = s.outline.linesAt place :=
    s.outline.linesAt_relabel r.number place
  simp only [docTextAt, lines]
  split
  · split
    · rfl
    · exact appendLine_relabel s place text
  · split
    · exact edit_relabel s place _
    · exact appendLine_relabel s place text

theorem takeDoc_relabel (s : Scan) (text : Text) :
    (s.relabel r).takeDoc text = (s.takeDoc text).relabel r := by
  unfold takeDoc
  rw [commentPlace_relabel]
  cases ha : s.admitting with
  | false => simp [relabel, ha]
  | true =>
    simp only [show (s.relabel r).admitting = true from ha, if_true]
    split
    · exact openFence_relabel _ _ _
    · exact docTextAt_relabel _ _ _

/-! ## Declarations -/

section

variable (filtered : ∀ b, r.exportedOnly b = b)

include filtered

theorem register_relabel (s : Scan) (d : Declaration) :
    (s.relabel r).register (d.relabel r.number) = (s.register d).relabel r := by
  have discards : ((s.relabel r).exportedOnly && !(d.relabel r.number).isExported) =
      (s.exportedOnly && !d.isExported) := by
    rw [show (s.relabel r).exportedOnly = s.exportedOnly from filtered _]
    rfl
  unfold register
  rw [discards]
  split
  · simp [note, relabel, Event.relabel, Declaration.relabel]
  · simp only [relabel, Outline.add_relabel]
    simp [Outline.relabel, Declaration.relabel]

theorem flushPending_relabel (s : Scan) :
    (s.relabel r).flushPending = s.flushPending.relabel r := by
  cases hp : s.pending.lines with
  | nil => simp [flushPending, relabel, hp]
  | cons first rest =>
    simp only [flushPending, hp, show (s.relabel r).pending.lines = first :: rest from hp]
    rw [← register_relabel filtered]
    rfl

theorem docLine_relabel (s : Scan) (line : Text) :
    (s.relabel r).docLine line = (s.docLine line).relabel r := by
  rw [docLine_eq, docLine_eq, flushPending_relabel filtered, takeDoc_relabel]
  split <;> rfl

theorem startDeclaration_relabel (s : Scan) (line : Text) (n : Int) :
    (s.relabel r).startDeclaration line (r.number n) = (s.startDeclaration line n).relabel r := by
  simp only [startDeclaration, flushPending_relabel filtered]
  split
  · exact flushPending_relabel filtered { s.flushPending.endDeclaration with
      pending := { lines := [line], lineNumber := n } }
  · rfl

theorem continueDeclaration_relabel (s : Scan) (line : Text) :
    (s.relabel r).continueDeclaration line = (s.continueDeclaration line).relabel r := by
  simp only [continueDeclaration]
  split
  · exact flushPending_relabel filtered
      { s with pending := { s.pending with lines := s.pending.lines ++ [line] } }
  · rfl

theorem declareLine_relabel (s : Scan) (code doc : Text) (n : Int) (category : Category) :
    (s.relabel r).declareLine code doc (r.number n) category =
      (s.declareLine code doc n category).relabel r := by
  rw [declareLine_eq, declareLine_eq, ← register_relabel filtered]
  rfl

theorem importLine_relabel (s : Scan) (text : Text) :
    (s.relabel r).importLine text = (s.importLine text).map (·.relabel r) := by
  simp only [importLine, flushPending_relabel filtered]
  split
  · rfl
  · rw [Option.map_map]
    rfl

theorem finish_relabel (s : Scan) : (s.relabel r).finish = s.finish.relabel r := by
  have ended (t : Scan) : (t.relabel r).closeFence.flushPending.endDeclaration =
      t.closeFence.flushPending.endDeclaration.relabel r := by
    rw [closeFence_relabel, flushPending_relabel filtered]
    rfl
  simp only [finish]
  split
  · next h =>
    rw [if_pos (show s.inCode = true from h)]
    exact ended s
  · next h =>
    rw [if_neg (show ¬ s.inCode = true from h), commitHeld_relabel]
    exact ended _

end

/-! ## Sections -/

section

variable (filtered : ∀ b, r.exportedOnly b = b) (section_ : ∀ o, r.openSection o = o)

include section_

theorem inSection_relabel (s : Scan) (o : OpenSection) :
    (s.relabel r).inSection o = (s.inSection o).relabel r := by
  simp [inSection, relabel, section_]

include filtered

theorem inlineDoc_relabel (s : Scan) (code doc : Text) (n : Int) :
    (s.relabel r).inlineDoc code doc (r.number n) = (s.inlineDoc code doc n).relabel r := by
  have same : (s.relabel r).openSection = s.openSection := section_ _
  have dropped : (s.relabel r).dropPending (r.number n) = (s.dropPending n).relabel r := by
    unfold dropPending
    split
    · next h => rw [if_pos (show s.pending.lines.isEmpty = true from h)]
    · next h =>
      rw [if_neg (show ¬ s.pending.lines.isEmpty = true from h)]
      simp [note, relabel, Event.relabel]
  have category : (s.relabel r).lineCategory code = s.lineCategory code := by
    simp only [lineCategory, same]
  have opened : (s.relabel r).inlineSection code = s.inlineSection code := by
    simp only [inlineSection, same]
  rw [inlineDoc_eq, inlineDoc_eq, dropped, category, opened, inSection_relabel section_,
    declareLine_relabel filtered]

theorem sectionLine_relabel (s : Scan) (line : Text) (n : Int) :
    (s.relabel r).sectionLine line (r.number n) =
      ((s.sectionLine line n).1, (s.sectionLine line n).2.relabel r) := by
  have declared (t : Scan) (category : Category) :
      (t.relabel r).declareLine line.strip [] (r.number n) category =
        (t.declareLine line.strip [] n category).relabel r :=
    declareLine_relabel filtered t line.strip [] n category
  unfold sectionLine
  split
  · have left : (s.relabel r).endDeclaration.inSection {} =
        (s.endDeclaration.inSection {}).relabel r :=
      inSection_relabel section_ s.endDeclaration {}
    unfold sectionStart
    split
    · exact congrArg (Prod.mk false) (inSection_relabel section_ s {})
    · next category rest _ =>
      simp only
      split
      · exact congrArg (Prod.mk true)
          (inSection_relabel section_ s.endDeclaration { category := some category })
      · split
        · exact congrArg (Prod.mk true) ((congrArg (·.declareLine line.strip [] (r.number n)
            category) left).trans (declared _ category))
        · exact congrArg (Prod.mk true) left
  · have same : (s.relabel r).openSection = s.openSection := section_ _
    unfold sectionEntry
    simp only [same]
    split
    · rfl
    · next category _ =>
      have entered := inSection_relabel section_ s
        { s.openSection with indent := some (s.openSection.indent.getD line.indent) }
      split
      · exact congrArg (Prod.mk true) ((congrArg (·.declareLine line.strip [] (r.number n)
          category) entered).trans (declared _ category))
      · exact congrArg (Prod.mk false) entered

theorem declarationLine_relabel (s : Scan) (n : Int) (line : Text) :
    (s.relabel r).declarationLine (r.number n) line = (s.declarationLine n line).relabel r := by
  have same : (s.relabel r).openSection = s.openSection := section_ _
  unfold declarationLine
  split
  · have outside := inSection_relabel section_ s { s.openSection with category := none }
    rw [same]
    exact (congrArg (·.startDeclaration line (r.number n)) outside).trans
      (startDeclaration_relabel filtered _ line n)
  · split
    · next h =>
      rw [if_pos (show (!s.pending.lines.isEmpty) = true from h)]
      exact continueDeclaration_relabel filtered s line
    · next h =>
      rw [if_neg (show ¬ (!s.pending.lines.isEmpty) = true from h),
        sectionLine_relabel filtered section_]
      simp only
      split <;> rfl

theorem bodyLine_relabel (s : Scan) (n : Int) (line : Text) :
    (s.relabel r).bodyLine (r.number n) line = (s.bodyLine n line).relabel r := by
  rw [bodyLine_eq, bodyLine_eq, flushPending_relabel filtered]
  split
  · rfl
  · have margin : (s.relabel r).atMargin line = (s.atMargin line).relabel r := by
      unfold atMargin
      split <;> rfl
    rw [margin]
    unfold textLine
    split
    · exact docLine_relabel filtered _ line
    · split
      · exact inlineDoc_relabel filtered section_ _ _ _ n
      · rw [importLine_relabel filtered]
        cases (s.atMargin line).importLine line.strip with
        | some t => rfl
        | none => exact declarationLine_relabel filtered section_ _ n line

theorem codeLine_relabel (h : s.codeLine n line = .ok s') :
    (s.relabel r).codeLine (r.number n) line = .ok (s'.relabel r) := by
  rw [codeLine_eq] at h ⊢
  rw [captured_relabel]
  split at h
  · next hc =>
    cases h
    exact if_pos hc
  · next hc =>
    refine (if_neg hc).trans ?_
    unfold plainLine at h
    cases hf : (s.captured line).2.fencedLine line with
    | error failure => simp [hf, bind, Except.bind] at h
    | ok answer =>
      obtain ⟨taken, t⟩ := answer
      rw [hf] at h
      have hf' := fencedLine_relabel (r := r) hf
      cases h
      cases taken with
      | true => exact plainLine_of_taken hf'
      | false =>
        exact (plainLine_of_refused hf').trans
          (congrArg Except.ok (bodyLine_relabel filtered section_ t n line))

theorem line_relabel (h : s.line n line = .ok s') :
    (s.relabel r).line (r.number n) line = .ok (s'.relabel r) := by
  unfold Scan.line at h ⊢
  split at h
  · next hg =>
    cases h
    exact if_pos hg
  · next hg =>
    rw [if_neg hg]
    split at h
    · next hi => exact (if_pos hi).trans (codeLine_relabel filtered section_ h)
    · next hi =>
      refine (if_neg hi).trans ?_
      cases ht : s.takeTop line with
      | error failure => simp [ht, bind, Except.bind] at h
      | ok answer =>
        obtain ⟨taken, t⟩ := answer
        rw [ht] at h
        rw [takeTop_relabel ht]
        cases taken with
        | true =>
          cases h
          rfl
        | false =>
          have entered := codeLine_relabel filtered section_ h
          rw [← enterCode_relabel] at entered
          exact entered

theorem fresh_relabel (exportedOnly : Bool) :
    (fresh exportedOnly).relabel r = fresh exportedOnly := by
  simp [fresh, relabel, filtered, section_, r.narrative, Outline.relabel]

/-- A run whose lines are numbered otherwise. -/
theorem lines_relabel {first first' : Nat} {ls : List Text} (h : s.lines first ls = .ok s')
    (numbers : ∀ i < ls.length, r.number (first + i : Nat) = (first' + i : Nat)) :
    (s.relabel r).lines first' ls = .ok (s'.relabel r) := by
  induction ls generalizing s first first' with
  | nil =>
    cases h
    rfl
  | cons line rest ih =>
    simp only [lines] at h ⊢
    split at h
    · next next he =>
      have start : r.number (first : Int) = (first' : Int) := numbers 0 (Nat.zero_lt_succ _)
      rw [← start, line_relabel filtered section_ he]
      refine ih h fun i hi => ?_
      have later := numbers (i + 1) (Nat.succ_lt_succ hi)
      rwa [Nat.add_right_comm, Nat.add_right_comm first']
    · cases h

end

end Scan

end NimMarkdown
