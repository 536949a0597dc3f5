import NimMarkdown.Proofs.DocItems
import NimMarkdown.Proofs.Mirror

/-!
# The top matter, with the whole source in view

`topMatterOf` says what the top matter of a source is: the first copyright note
of the lines before the module's doc comment, set off, and then the items of the
other notes and of the doc comment. The scan writes it line by line, with one line
held back or a code block open. `Scan.prospect` is what it has written with what it
still owes for given texts, and `Scan.awaited` with what it owes for the lines to
come; a line that is taken does not change what is awaited (`takeTop_awaited`). So
the scan has written `topMatterOf` when it comes to the code, or to the end.
-/

namespace NimMarkdown

namespace Line

/-- A line that may stand before the doc comment of the module. -/
def isPreamble (line : Text) : Bool := line.isBlankText || isPlainComment line

/-- A line of the doc comment of the module. -/
def isModuleDoc (line : Text) : Bool := Text.startsWith docMarker line

/-- The doc comment of the module ends at the line. -/
def endsModuleDoc (line : Text) : Bool :=
  !isModuleDoc line && (line.isBlankText || line.strip.head?.any isAsciiLetter)

end Line

/-- The copyright notes before the doc comment. -/
def copyrightLines (ls : List Text) : List Text :=
  (ls.takeWhile Line.isPreamble).filter Line.isCopyright

/-- The first copyright note, set off. -/
def copyrightNote : List Text → List Text
  | [] => []
  | first :: _ => ['*' :: (Line.commentText first ++ ['*']), []]

/-- The texts of a doc comment up to its end. -/
def docTextsFrom (ls : List Text) : List Text :=
  ((ls.takeWhile (!Line.endsModuleDoc ·)).filter Line.isModuleDoc).map Line.docText

/-- The texts of the doc comment of the module. -/
def moduleDocTexts (ls : List Text) : List Text :=
  if (ls.dropWhile Line.isPreamble).head?.any Line.isModuleDoc then
    docTextsFrom (ls.dropWhile Line.isPreamble)
  else []

/-- The top matter of the lines of a source. The guards of the main module do not count. -/
def topMatterOf (source : List Text) : List Text :=
  let ls := source.filter (!Line.isMainGuard ·)
  copyrightNote (copyrightLines ls) ++
    (docItems ((copyrightLines ls).tail.map Line.commentText ++ moduleDocTexts ls)).map DocItem.line

section

variable {line : Text} {ls : List Text}

theorem copyrightLines_preamble (h : Line.isPreamble line = true) (ls : List Text) :
    copyrightLines (line :: ls) =
      (if Line.isCopyright line then [line] else []) ++ copyrightLines ls := by
  simp only [copyrightLines, List.takeWhile_cons_of_pos h, List.filter_cons]
  split <;> rfl

theorem copyrightLines_end (h : Line.isPreamble line = false) (ls : List Text) :
    copyrightLines (line :: ls) = [] := by
  rw [copyrightLines, List.takeWhile_cons_of_neg (by simp [h])]
  rfl

theorem moduleDocTexts_preamble (h : Line.isPreamble line = true) (ls : List Text) :
    moduleDocTexts (line :: ls) = moduleDocTexts ls := by
  rw [moduleDocTexts, List.dropWhile_cons_of_pos h, moduleDocTexts]

theorem moduleDocTexts_end (h : Line.isPreamble line = false) (ls : List Text) :
    moduleDocTexts (line :: ls) =
      if Line.isModuleDoc line then docTextsFrom (line :: ls) else [] := by
  rw [moduleDocTexts, List.dropWhile_cons_of_neg (by simp [h])]
  rfl

theorem docTextsFrom_doc (h : Line.isModuleDoc line = true) (ls : List Text) :
    docTextsFrom (line :: ls) = Line.docText line :: docTextsFrom ls := by
  have on : Line.endsModuleDoc line = false := by simp [Line.endsModuleDoc, h]
  simp [docTextsFrom, on, h]

theorem docTextsFrom_other (h : Line.isModuleDoc line = false) (ls : List Text) :
    docTextsFrom (line :: ls) = if Line.endsModuleDoc line then [] else docTextsFrom ls := by
  cases he : Line.endsModuleDoc line <;> simp [docTextsFrom, he, h]

theorem isPreamble_of_doc (h : Line.isModuleDoc line = true) : Line.isPreamble line = false := by
  have solid := Line.isBlankText_of_mark (Line.mark_mem_of_startsWith h)
  have hd : Text.startsWith Line.docMarker line = true := h
  simp [Line.isPreamble, Line.isPlainComment, solid, hd]

end

namespace Scan

variable {s s' : Scan} {text line : Text} {ls ts : List Text}

/-- The text that is held back is no directive. -/
def HoldsText (s : Scan) : Prop := ∀ t, s.held = some t → Line.isCodeBlock t = false

/-- The top matter to be, if nothing but the given texts comes. -/
def prospect (s : Scan) (ts : List Text) : List Text :=
  s.outline.topMatter ++ (owed s.fence s.held ts).map DocItem.line

/-! ## Texts of the top matter -/

@[simp] theorem appendLine_topMatter (s : Scan) (line : Text) :
    (s.appendLine .topMatter line).outline.topMatter = s.outline.topMatter ++ [line] := rfl

theorem commitHeld_topMatter (s : Scan) :
    s.commitHeld.outline.topMatter = s.outline.topMatter ++ s.held.toList := by
  unfold commitHeld
  split
  · next h => simp [h]
  · next h => simp [h]

theorem topText_prospect (hh : s.HoldsText) (closed : s.fence.isOpen = false) (text : Text)
    (ts : List Text) : (s.topText text).prospect ts = s.prospect (text :: ts) := by
  have before : s.prospect (text :: ts) =
      s.outline.topMatter ++ (docItems (s.held.toList ++ text :: ts)).map DocItem.line := by
    rw [prospect, owed_closed closed]
  rw [before]
  simp only [topText]
  split
  · next hd =>
    rw [docItems_held_directive hh hd .topMatter, prospect, openFence_eq]
    simp [edit, Outline.modifyLines, commitHeld_topMatter, (commitHeld_frame s).1, DocItem.line,
      openingLine]
  · next hd =>
    have hd : Line.isCodeBlock text = false := by simpa using hd
    have holding (o : Outline) (held : Option Text) : prospect { s with outline := o, held } ts =
        o.topMatter ++ (docItems (held.toList ++ ts)).map DocItem.line := by
      rw [prospect, owed_closed (f := s.fence) closed]
    split
    · next hn => rw [hn, Option.toList_none, List.nil_append, holding s.outline (some text)]; rfl
    · next above ha =>
      split
      · next hu =>
        simp only [Bool.and_eq_true, bne_iff_ne, ne_eq, Bool.not_eq_true'] at hu
        rw [ha, Option.toList_some, List.singleton_append,
          docItems_heading (hh above ha) hu.1 hu.2]
        refine (holding _ none).trans ?_
        simp [DocItem.line]
      · next hu =>
        simp only [Bool.and_eq_true, bne_iff_ne, ne_eq, Bool.not_eq_true', not_and,
          Bool.not_eq_false] at hu
        have quiet : ∀ u ∈ (text :: ts).head?, Line.underlineLevel u ≠ 0 →
            ∀ t, s.held = some t → t.isBlankText = true := by
          intro u hu' hl t ht
          obtain rfl : text = u := by simpa using hu'
          obtain rfl : above = t := Option.some.inj (ha.symm.trans ht)
          exact hu hl
        rw [docItems_held hh quiet]
        refine (holding _ (some text)).trans ?_
        simp [ha, DocItem.line]

theorem topText_holdsText (s : Scan) (text : Text) : (s.topText text).HoldsText := by
  intro t ht
  simp only [topText] at ht
  split at ht
  · rw [openFence_eq] at ht
    simp [edit, (commitHeld_frame s).1] at ht
  · next hd =>
    split at ht
    · cases ht
      simpa using hd
    · split at ht
      · cases ht
      · cases ht
        simpa using hd

theorem topText_frame (s : Scan) (text : Text) :
    (s.topText text).docSeen = s.docSeen ∧ (s.topText text).copyrightSeen = s.copyrightSeen ∧
      (s.topText text).inCode = s.inCode := by
  simp only [topText]
  split
  · unfold commitHeld
    split <;> exact ⟨rfl, rfl, rfl⟩
  · split
    · exact ⟨rfl, rfl, rfl⟩
    · split <;> exact ⟨rfl, rfl, rfl⟩

/-- A text of the top matter is written, or remembered, so that nothing is lost. -/
theorem topLine_prospect (hs : s.Sound) (top : s.inCode = false) (hh : s.HoldsText)
    (text : Text) :
    ∃ s', s.topLine text = .ok s' ∧ s'.HoldsText ∧ s'.docSeen = s.docSeen ∧
      s'.copyrightSeen = s.copyrightSeen ∧ s'.inCode = false ∧
      ∀ ts, s'.prospect ts = s.prospect (text :: ts) := by
  have plain {t : Scan} (ht : t.HoldsText) (closed : t.fence.isOpen = false)
      (hi : t.inCode = false) : (t.topText text).HoldsText ∧ (t.topText text).docSeen = t.docSeen ∧
        (t.topText text).copyrightSeen = t.copyrightSeen ∧ (t.topText text).inCode = false ∧
        ∀ ts, (t.topText text).prospect ts = t.prospect (text :: ts) := by
    obtain ⟨h1, h2, h3⟩ := topText_frame t text
    exact ⟨topText_holdsText t text, h1, h2, h3.trans hi, topText_prospect ht closed text⟩
  unfold topLine
  split
  · next ho =>
    obtain ⟨held, -, -, -, hp⟩ := hs.fence_open ho
    rw [docPlace, top] at hp
    obtain ⟨taken, written, fence, he, hf, -, hr⟩ := answersFenced hs.fence ho hp text
    have fed (ts : List Text) :
        prospect { s.edit .topMatter (· ++ written) with fence }
            (if taken then ts else text :: ts) = s.prospect (text :: ts) := by
      simp [prospect, edit, Outline.modifyLines, held, hr ts]
    rw [he]
    cases taken with
    | true => exact ⟨_, rfl, hh, rfl, rfl, top, fed⟩
    | false =>
      obtain ⟨h1, h2, h3, h4, h5⟩ := plain
        (t := { s.edit .topMatter (· ++ written) with fence }) hh hf top
      exact ⟨_, rfl, h1, h2, h3, h4, fun ts => (h5 ts).trans (fed ts)⟩
  · next hc => exact ⟨_, rfl, plain hh (by simpa using hc) top⟩

/-- What is left of the top matter is written at its end. -/
theorem closed_topMatter (hs : s.Sound) (top : s.inCode = false) (hh : s.HoldsText) :
    s.commitHeld.closeFence.outline.topMatter = s.prospect [] := by
  cases ho : s.fence.isOpen with
  | true =>
    obtain ⟨held, -, -, -, hp⟩ := hs.fence_open ho
    rw [docPlace, top] at hp
    have hc : s.commitHeld = s := by simp only [commitHeld, held]
    rw [hc, closeFence_of_open ho hp, prospect, owed_open ho, Fence.rest_nil hs.fence ho]
    simp [edit, Outline.modifyLines, docItems]
  | false =>
    have hc : s.commitHeld.fence.isOpen = false := by rw [(commitHeld_frame s).2.2.1, ho]
    rw [closeFence_of_closed hc, commitHeld_topMatter, prospect, owed_closed ho, List.append_nil,
      docItems_held_end hh]
    simp

/-! ## Lines of the top matter -/

/-- The top matter to be, with the given lines to come. -/
def awaited (s : Scan) (ls : List Text) : List Text :=
  if s.docSeen then s.prospect (docTextsFrom ls)
  else if s.copyrightSeen then
    s.prospect ((copyrightLines ls).map Line.commentText ++ moduleDocTexts ls)
  else
    s.outline.topMatter ++ copyrightNote (copyrightLines ls) ++
      (owed s.fence s.held
        ((copyrightLines ls).tail.map Line.commentText ++ moduleDocTexts ls)).map DocItem.line

theorem awaited_nil (s : Scan) : s.awaited [] = s.prospect [] := by
  have nothing : copyrightLines [] = [] ∧ moduleDocTexts [] = [] ∧ docTextsFrom [] = [] :=
    ⟨rfl, rfl, rfl⟩
  simp only [awaited, nothing]
  split
  · rfl
  · split <;> simp [prospect, copyrightNote]

/-- A line before the code is taken without changing what is awaited; the line that is not taken
finds the top matter complete. -/
def AnswersTop (s : Scan) (line : Text) : Prop :=
  ∃ taken s', s.takeTop line = .ok (taken, s') ∧ s'.HoldsText ∧ s'.inCode = false ∧
    ∀ ls, s.awaited (line :: ls) = if taken then s'.awaited ls else s'.prospect []

theorem topDoc_awaited (hs : s.Sound) (top : s.inCode = false) (hh : s.HoldsText)
    (seen : s.docSeen = true) (line : Text) :
    ∃ taken s', s.topDoc line = .ok (taken, s') ∧ s'.HoldsText ∧ s'.inCode = false ∧
      ∀ ls, s.prospect (docTextsFrom (line :: ls)) =
        if taken then s'.awaited ls else s'.prospect [] := by
  unfold topDoc
  split
  · next hd =>
    obtain ⟨s1, he, h1, hseen, -, hi, hp⟩ := topLine_prospect hs top hh (Line.docText line)
    rw [he]
    refine ⟨true, s1, rfl, h1, hi, fun ls => ?_⟩
    rw [docTextsFrom_doc hd, if_pos rfl, awaited, if_pos (hseen.trans seen), hp]
  · next hd =>
    have other : Line.isModuleDoc line = false := by
      rw [Line.isModuleDoc]
      simpa using hd
    have passed (ls : List Text) (h : Line.endsModuleDoc line = false) :
        s.prospect (docTextsFrom (line :: ls)) = s.awaited ls := by
      rw [docTextsFrom_other other, h, awaited, if_pos seen]
      rfl
    have ended (ls : List Text) (h : Line.endsModuleDoc line = true) :
        s.prospect (docTextsFrom (line :: ls)) = s.prospect [] := by
      rw [docTextsFrom_other other, h]
      rfl
    split
    · next hn =>
      have ends : Line.endsModuleDoc line = true := by
        simp [Line.endsModuleDoc, other, Text.strip_eq_nil_iff.1 hn]
      exact ⟨false, s, rfl, hh, top, fun ls => ended ls ends⟩
    · next c rest hn =>
      have solid : line.isBlankText = false := by
        cases hb : line.isBlankText with
        | false => rfl
        | true =>
          rw [Text.strip_eq_nil_iff.2 hb] at hn
          cases hn
      have ends : Line.endsModuleDoc line = isAsciiLetter c := by
        simp [Line.endsModuleDoc, other, solid, hn]
      refine ⟨!isAsciiLetter c, s, rfl, hh, top, fun ls => ?_⟩
      cases hc : isAsciiLetter c with
      | true => exact ended ls (ends.trans hc)
      | false => exact passed ls (ends.trans hc)

theorem topComment_awaited (hs : s.Sound) (top : s.inCode = false) (hh : s.HoldsText)
    (unseen : s.docSeen = false) (hp : Line.isPlainComment line = true) :
    ∃ s', s.topComment line = .ok s' ∧ s'.HoldsText ∧ s'.inCode = false ∧
      ∀ ls, s.awaited (line :: ls) = s'.awaited ls := by
  have preamble : Line.isPreamble line = true := by simp [Line.isPreamble, hp]
  unfold topComment
  split
  · next hc =>
    have lines (ls : List Text) : copyrightLines (line :: ls) = line :: copyrightLines ls := by
      rw [copyrightLines_preamble preamble, if_pos hc]
      rfl
    split
    · next seen =>
      obtain ⟨s1, he, h1, hd, hcs, hi, hp⟩ := topLine_prospect hs top hh (Line.commentText line)
      refine ⟨s1, he, h1, hi, fun ls => ?_⟩
      simp only [awaited, unseen, seen, hd, hcs, lines, moduleDocTexts_preamble preamble,
        Bool.false_eq_true, if_false, if_true, List.map_cons, List.cons_append, hp]
    · next new =>
      refine ⟨_, rfl, hh, top, fun ls => ?_⟩
      have noted (o : Outline) : awaited { s with outline := o, copyrightSeen := true } ls =
          o.topMatter ++ (owed s.fence s.held ((copyrightLines ls).map Line.commentText ++
            moduleDocTexts ls)).map DocItem.line := by
        simp [awaited, prospect, unseen]
      refine Eq.trans ?_ (noted _).symm
      simp [awaited, unseen, new, lines, moduleDocTexts_preamble preamble, copyrightNote]
  · next hc =>
    have lines (ls : List Text) : copyrightLines (line :: ls) = copyrightLines ls := by
      rw [copyrightLines_preamble preamble, if_neg hc]
      rfl
    refine ⟨s, rfl, hh, top, fun ls => ?_⟩
    simp only [awaited, lines, moduleDocTexts_preamble preamble, unseen, Bool.false_eq_true,
      if_false]

/-- **A line before the code does not change what is awaited.** -/
theorem takeTop_awaited (hs : s.Sound) (top : s.inCode = false) (hh : s.HoldsText)
    (line : Text) : s.AnswersTop line := by
  unfold AnswersTop takeTop
  cases seen : s.docSeen with
  | true =>
    rw [if_pos rfl]
    obtain ⟨taken, s1, he, h1, hi, hp⟩ := topDoc_awaited hs top hh seen line
    refine ⟨taken, s1, he, h1, hi, fun ls => ?_⟩
    rw [awaited, if_pos seen, hp]
  | false =>
    rw [if_neg Bool.false_ne_true]
    -- Without a copyright note among the lines to come, only the doc comment is awaited.
    have rest (ls : List Text) (hn : Line.isPreamble line = false) :
        s.awaited (line :: ls) = s.prospect (moduleDocTexts (line :: ls)) := by
      simp [awaited, seen, copyrightLines_end hn, copyrightNote, prospect]
    split
    · next hd =>
      have doc : Line.isModuleDoc line = true := hd
      have hn := isPreamble_of_doc doc
      obtain ⟨taken, s1, he, h1, hi, hp⟩ :=
        topDoc_awaited (s := { s with docSeen := true }) { hs with } top hh rfl line
      refine ⟨taken, s1, he, h1, hi, fun ls => ?_⟩
      rw [rest ls hn, moduleDocTexts_end hn, if_pos doc, ← hp]
      rfl
    · next hd =>
      split
      · next hc =>
        obtain ⟨s1, he, h1, hi, hp⟩ := topComment_awaited hs top hh seen hc
        rw [he]
        exact ⟨true, s1, rfl, h1, hi, hp⟩
      · next hc =>
        split
        · next hb =>
          have preamble : Line.isPreamble line = true := by simp [Line.isPreamble, hb]
          have note : Line.isCopyright line = false := by simp [Line.isCopyright, hc]
          refine ⟨true, s, rfl, hh, top, fun ls => ?_⟩
          simp [awaited, seen, copyrightLines_preamble preamble, note,
            moduleDocTexts_preamble preamble]
        · next hb =>
          have hn : Line.isPreamble line = false := by simp [Line.isPreamble, hb, hc]
          have other : ¬Line.isModuleDoc line = true := hd
          refine ⟨false, _, rfl, hh, top, fun ls => ?_⟩
          rw [rest ls hn, moduleDocTexts_end hn, if_neg other]
          rfl

/-! ## The way to the code -/

/-- Reading the lines from the one with number `n` on, the scan comes to the code in a state. -/
inductive EntersCode : Scan → Nat → List Text → Scan → Prop where
  | here {s t : Scan} {n : Nat} {line : Text} (rest : List Text) (top : s.inCode = false)
      (guard : Line.isMainGuard line = false) (refused : s.takeTop line = .ok (false, t)) :
      EntersCode s n (line :: rest) (t.enterCode n)
  | later {s t e : Scan} {n : Nat} {line : Text} {rest : List Text} (top : s.inCode = false)
      (read : s.line n line = .ok t) (enters : EntersCode t (n + 1) rest e) :
      EntersCode s n (line :: rest) e

/-- The scan is before the code, and `target` is what it will have written there. -/
structure Ahead (target : List Text) (s : Scan) (ls : List Text) : Prop where
  sound : s.Sound
  top : s.inCode = false
  holds : s.HoldsText
  awaited : s.awaited (ls.filter (!Line.isMainGuard ·)) = target

variable {n : Nat} {number : Int} {target : List Text} {t e : Scan}

theorem EntersCode.top (h : EntersCode s n ls e) : s.inCode = false := by
  cases h <;> assumption

theorem EntersCode.entered (h : EntersCode s n ls e) : e.inCode = true := by
  induction h with
  | here => rfl
  | later _ _ _ ih => exact ih

theorem finish_inCode (s : Scan) : s.finish.inCode = s.inCode := by
  simp only [finish]
  split <;> simp [endDeclaration, (closeFence_frame _).1, (commitHeld_frame s).2.1]

/-- A scan does not leave the code. -/
theorem lines_inCode (hn : 1 ≤ n) (hs : s.Sound) (hi : s.inCode = true)
    (h : s.lines n ls = .ok t) : t.inCode = true := by
  obtain ⟨t', he, -, -, ht⟩ := lines_keep (P := fun s => s.Extends [] ∧ s.inCode = true) ls
    (fun _ _ _ _ _ _ hs hP hm => hm.extends hP.2 hs hP.1) n hn hs ⟨extends_nil s, hi⟩
  obtain rfl := Except.ok.inj (h.symm.trans he)
  exact ht

/-- Where the top matter does not take a line, the line is the first of the code. -/
theorem line_eq_of_refused (top : s.inCode = false) (guard : Line.isMainGuard line = false)
    (refused : s.takeTop line = .ok (false, t)) :
    s.line number line = (t.enterCode number).codeLine number line := by
  rw [Scan.line, if_neg (by simp [guard]), if_neg (by simp [top]), refused]
  rfl

theorem line_of_refused (hs : s.Sound) (top : s.inCode = false)
    (guard : Line.isMainGuard line = false) (hn : 1 ≤ number)
    (refused : s.takeTop line = .ok (false, t)) (h : s.line number line = .ok s') :
    s'.Sound ∧ s'.inCode = true := by
  have he : s.line number line = (t.enterCode number).codeLine number line :=
    line_eq_of_refused top guard refused
  obtain rfl := takeTop_refused refused
  have hs1 : Sound { s with docSeen := true } := { hs with }
  have entered := (enterCode_moves hs1 top number line).sound hn hs1
  obtain ⟨s1, h1, hm⟩ := codeLine_moves entered rfl number line
  obtain rfl := Except.ok.inj (h.symm.trans (he.trans h1))
  exact ⟨hm.sound hn entered, (hm.extends hn rfl entered (extends_nil _)).2⟩

theorem enterCode_topMatter (hs : s.Sound) (top : s.inCode = false) (hh : s.HoldsText) :
    (s.enterCode number).outline.topMatter = s.prospect [] := closed_topMatter hs top hh

theorem enterCode_declarations (hs : s.Sound) (top : s.inCode = false) :
    (s.enterCode number).outline.declarations = [] := by
  have hi : s.commitHeld.closeFence.inCode = false := by
    rw [(closeFence_frame _).1, (commitHeld_frame s).2.1, top]
  exact (hs.commitHeld.closeFence.top hi).2.2.2.1

theorem finish_topMatter (hs : s.Sound) (top : s.inCode = false) (hh : s.HoldsText) :
    s.finish.outline.topMatter = s.prospect [] := by
  rw [← closed_topMatter hs top hh]
  have hi : s.commitHeld.closeFence.inCode = false := by
    rw [(closeFence_frame _).1, (commitHeld_frame s).2.1, top]
  have pending := (hs.commitHeld.closeFence.top hi).1
  simp only [finish, top, Bool.false_eq_true, if_false, endDeclaration, flushPending, pending]

/-- A line is read before the code, or the code begins with it. -/
theorem Ahead.reads (h : Ahead target s (line :: ls)) (hn : 1 ≤ number) :
    (∃ s', s.line number line = .ok s' ∧ Ahead target s' ls) ∨
    (Line.isMainGuard line = false ∧ ∃ t, s.takeTop line = .ok (false, t) ∧
      ∀ number, (t.enterCode number).outline.topMatter = target) := by
  have goal := h.awaited
  cases guard : Line.isMainGuard line with
  | true =>
    rw [List.filter_cons_of_neg (by simp [guard])] at goal
    refine .inl ⟨s, ?_, { h with awaited := goal }⟩
    rw [Scan.line, if_pos guard]
  | false =>
    rw [List.filter_cons_of_pos (by simp [guard])] at goal
    obtain ⟨taken, t, he, hh, hi, ha⟩ := takeTop_awaited h.sound h.top h.holds line
    rw [ha] at goal
    obtain ⟨taken', t', he', hm⟩ := takeTop_moves h.sound h.top number line
    obtain ⟨rfl, rfl⟩ : taken = taken' ∧ t = t' := by simpa using he.symm.trans he'
    have sound := hm.sound hn h.sound
    cases taken with
    | true =>
      refine .inl ⟨t, ?_, sound, hi, hh, goal⟩
      rw [Scan.line, if_neg (by simp [guard]), if_neg (by simp [h.top]), he]
      rfl
    | false => exact .inr ⟨rfl, t, he, fun _ => (enterCode_topMatter sound hi hh).trans goal⟩

/-- What was awaited has been written where the code begins. -/
theorem Ahead.enters (h : Ahead target s ls) (hn : 1 ≤ n) (he : EntersCode s n ls e) :
    e.outline.topMatter = target := by
  induction he with
  | @here s t n line rest top guard refused =>
    obtain ⟨s', hl, ha⟩ | ⟨-, t', ht, hw⟩ := h.reads (show (1 : Int) ≤ n by omega)
    · have := (line_of_refused h.sound top guard (by omega) refused hl).2
      rw [ha.top] at this
      cases this
    · obtain rfl : t = t' := by simpa using refused.symm.trans ht
      exact hw n
  | @later s t e n line rest top read enters ih =>
    obtain ⟨s', hl, ha⟩ | ⟨guard, t', ht, -⟩ := h.reads (show (1 : Int) ≤ n by omega)
    · obtain rfl := Except.ok.inj (read.symm.trans hl)
      exact ih ha (by omega)
    · have := (line_of_refused h.sound top guard (by omega) ht read).2
      rw [enters.top] at this
      cases this

/-- Nothing is declared before the code. -/
theorem EntersCode.undeclared (he : EntersCode s n ls e) (hs : s.Sound) (hn : 1 ≤ n) :
    e.outline.declarations = [] := by
  induction he with
  | @here s t n line rest top guard refused =>
    obtain rfl := takeTop_refused refused
    exact enterCode_declarations (s := { s with docSeen := true }) { hs with } top
  | @later s t e n line rest top read enters ih =>
    obtain ⟨t', hl, hm⟩ := line_moves hs (show (1 : Int) ≤ n by omega) line
    obtain rfl := Except.ok.inj (read.symm.trans hl)
    exact ih (hm.sound (by omega) hs) (by omega)

theorem EntersCode.inCode (he : EntersCode s n ls e) (hs : s.Sound) (hn : 1 ≤ n)
    (h : s.lines n ls = .ok t) : t.inCode = true := by
  induction he with
  | @here s t' n line rest top guard refused =>
    obtain ⟨s1, hl, -⟩ := line_moves hs (show (1 : Int) ≤ n by omega) line
    simp only [lines, hl] at h
    obtain ⟨hs1, hi⟩ := line_of_refused hs top guard (by omega) refused hl
    exact lines_inCode (by omega) hs1 hi h
  | @later s s1 e n line rest top read enters ih =>
    obtain ⟨s1', hl, hm⟩ := line_moves hs (show (1 : Int) ≤ n by omega) line
    obtain rfl := Except.ok.inj (read.symm.trans hl)
    simp only [lines, read] at h
    exact ih (hm.sound (by omega) hs) (by omega) h

/-- A run that comes to the code: what the moves keep up to there, and what they keep from
there on. -/
theorem EntersCode.keep {P Q : Scan → Prop} (he : EntersCode s n ls e) (hn : 1 ≤ n) (hs : s.Sound)
    (before : ∀ n line, 1 ≤ n → line ∈ ls → ∀ s s', s.Sound → P s → Move n line s s' → P s')
    (behind : ∀ n line, 1 ≤ n → line ∈ ls → ∀ s s', s.Sound → Q s → Move n line s s' → Q s')
    (enter : P e → Q e) (hP : P s) : ∃ t, s.lines n ls = .ok t ∧ t.Sound ∧ Q t := by
  have hn' : (1 : Int) ≤ n := by omega
  induction he with
  | @here s t n line rest top guard refused =>
    have first : s.line n line = (t.enterCode n).codeLine n line :=
      line_eq_of_refused top guard refused
    obtain rfl := takeTop_refused refused
    have hs1 : Sound { s with docSeen := true } := { hs with }
    have begun : P { s with docSeen := true } :=
      before n line hn' List.mem_cons_self _ _ hs hP (.beginDoc top)
    have moves := enterCode_moves hs1 top n line
    have entered := moves.sound hn' hs1
    have hQ := enter (moves.keep hn' (before n line hn' List.mem_cons_self) hs1 begun)
    obtain ⟨s1, h1, hm⟩ := codeLine_moves entered rfl n line
    obtain ⟨s2, h2, kept⟩ := lines_keep rest
      (fun m l hm hl => behind m l hm (List.mem_cons_of_mem _ hl)) (n + 1) (by omega)
      (hm.sound hn' entered) (hm.keep hn' (behind n line hn' List.mem_cons_self) entered hQ)
    exact ⟨s2, by simp only [lines, first, h1, h2], kept⟩
  | @later s t e n line rest top read enters ih =>
    obtain ⟨s1, h1, hs1, hP1⟩ := line_keep hn' (before n line hn' List.mem_cons_self) hs hP
    obtain rfl := Except.ok.inj (read.symm.trans h1)
    obtain ⟨s2, h2, kept⟩ := ih (by omega) hs1
      (fun m l hm hl => before m l hm (List.mem_cons_of_mem _ hl))
      (fun m l hm hl => behind m l hm (List.mem_cons_of_mem _ hl)) enter hP1 (by omega)
    exact ⟨s2, by simp only [lines, h1, h2], kept⟩

/-- A scan that is before the code comes to it, or stays before it to the end. -/
theorem Ahead.run (h : Ahead target s ls) (hn : 1 ≤ n) (hl : s.lines n ls = .ok t) :
    Ahead target t [] ∨ ∃ e, EntersCode s n ls e := by
  induction ls generalizing s n with
  | nil =>
    obtain rfl := Except.ok.inj hl
    exact .inl h
  | cons line rest ih =>
    obtain ⟨s', he, ha⟩ | ⟨guard, t', ht, -⟩ := h.reads (show (1 : Int) ≤ n by omega)
    · rw [lines_cons he] at hl
      rcases ih ha (by omega) hl with hend | ⟨e, hin⟩
      · exact .inl hend
      · exact .inr ⟨e, .later h.top he hin⟩
    · exact .inr ⟨_, .here rest h.top guard ht⟩

theorem Ahead.finish (h : Ahead target s []) : s.finish.outline.topMatter = target := by
  rw [finish_topMatter h.sound h.top h.holds, ← h.awaited]
  exact (awaited_nil s).symm

theorem fresh_ahead (exportedOnly : Bool) (ls : List Text) :
    Ahead (topMatterOf ls) (fresh exportedOnly) ls := by
  refine ⟨fresh_sound exportedOnly, rfl, nofun, ?_⟩
  simp [Scan.awaited, fresh, topMatterOf, owed_closed]

end Scan

/-- **The top matter is what it is with the whole source in view.** When the scan comes to the
code of a source, or at the end if it never does, the top matter is `topMatterOf` the lines. -/
theorem Source.scan_topMatter (options : Options) (content : Text) :
    let ls := Scan.sourceLines content
    let first := Scan.fresh (options.on .exportedOnly)
    ∃ final, Source.scan options content = .ok final ∧
      (final.inCode = true ↔ ∃ e, Scan.EntersCode first 1 ls e) ∧
      (∀ e, Scan.EntersCode first 1 ls e → e.outline.topMatter = topMatterOf ls) ∧
      ((¬∃ e, Scan.EntersCode first 1 ls e) → final.outline.topMatter = topMatterOf ls) := by
  intro ls first
  have ahead : Scan.Ahead (topMatterOf ls) first ls := Scan.fresh_ahead _ ls
  obtain ⟨t, ht, -⟩ := Scan.lines_ok (options.on .exportedOnly) ls
  have run := ahead.run (Nat.le_refl 1) ht
  refine ⟨t.finish, ?_, ?_, fun e => ahead.enters (Nat.le_refl 1), fun never => ?_⟩
  · simp only [Source.scan, Scan.source]
    rw [ht]
    rfl
  · rw [Scan.finish_inCode]
    refine ⟨fun hi => ?_, fun enters => ?_⟩
    · rcases run with stay | enters
      · rw [stay.top] at hi
        cases hi
      · exact enters
    · obtain ⟨e, he⟩ := enters
      exact he.inCode ahead.sound (Nat.le_refl 1) ht
  · rcases run with stay | enters
    · exact stay.finish
    · exact absurd enters never

end NimMarkdown
