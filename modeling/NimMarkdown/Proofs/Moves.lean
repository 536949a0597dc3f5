import NimMarkdown.Proofs.Sound
import Mathlib.Logic.Relation

/-!
# The moves of a scan

What a line does to a scan is put together from moves. `DocMove text` are the
moves that a doc text can make: they open, feed and close a code block, begin a
narrative and write at the place where doc lines go. `Move number line` are these
and the moves of the top matter and of the code. Each constructor says when the
move is made.

`Move.sound`: a move keeps a scan sound. `DocMove.effect`: whatever its reason, a
doc move does one of four things to the state (`DocEffect`). The other modules
show what else every move keeps; that a line is made of moves is shown in
`NimMarkdown.Proofs.Steps`.
-/

namespace NimMarkdown

/-- The lines that end a code block. -/
def Fence.closing (f : Fence) : List Text :=
  if f.blankHeld then [fenceMark, []] else [fenceMark]

/-- The lines before the next line of the body. -/
def Fence.resuming (f : Fence) : List Text := if f.blankHeld then [[]] else []

namespace Scan

/-- Nothing is open, and doc lines are taken. -/
def Free (s : Scan) : Prop :=
  s.fence.isOpen = false ∧ s.held = none ∧ s.pending.lines = [] ∧ s.capture.active = false ∧
    s.admitting = true

/-- The declaration of an element on one line. -/
def lineDeclaration (code doc : Text) (lineNumber : Int) (category : Category) : Declaration where
  lineNumber
  isExported := Line.isExported code
  category
  heading := some (Line.declarationHeading code)
  code := [code.strip]
  comment := if doc.isEmpty || Line.isTodo doc then [] else [doc]

theorem declareLine_eq (s : Scan) (code doc : Text) (lineNumber : Int) (category : Category) :
    s.declareLine code doc lineNumber category =
      s.endDeclaration.register (lineDeclaration code doc lineNumber category) := rfl

/-- The state while a body line with a given indent is written. -/
def indented (s : Scan) (indent : Nat) : Scan :=
  { s with fence := { s.fence with indent := some indent } }

/-- The state with another section open. -/
def inSection (s : Scan) (o : OpenSection) : Scan := { s with openSection := o }

/-- What a doc text does. -/
inductive DocMove (text : Text) : Scan → Scan → Prop where
  | openFence {s : Scan} {place : Place} (free : s.Free) (at_ : s.docPlace = some place)
      (directive : Line.isCodeBlock text = true) : DocMove text s (s.openFence place text)
  | closeFence (s : Scan) : DocMove text s s.closeFence
  | holdBlank {s : Scan} (isOpen : s.fence.isOpen = true) (started : s.fence.atStart = false) :
      DocMove text s { s with fence := { s.fence with blankHeld := true } }
  | dropBlank {s : Scan} (isOpen : s.fence.isOpen = true) :
      DocMove text s { s with fence := { s.fence with blankHeld := false } }
  | writeFenced {s : Scan} {place : Place} (isOpen : s.fence.isOpen = true)
      (at_ : s.fence.place = some place) (indented : 1 ≤ text.indent) :
      DocMove text s
        ((s.indented (s.fence.indent.getD text.indent)).writeFenced place
          (min (s.fence.indent.getD text.indent) text.indent) text)
  | narrative {s : Scan} (free : s.Free) (inCode : s.inCode = true) (hc : s.current = none)
      (hn : s.narrative = none) : DocMove text s s.commentPlace.2
  | write {s : Scan} {place : Place} (free : s.Free) (inCode : s.inCode = true)
      (at_ : s.docPlace = some place) (plain : Line.isCodeBlock text = false)
      (kept : Line.isTodo text = false) : DocMove text s (s.docTextAt place text)

/-- What a line does. -/
inductive Move (number : Int) (line : Text) : Scan → Scan → Prop where
  | doc {s s' : Scan} {text : Text} (ht : text = Line.docText line ∨ text = Line.commentText line)
      (h : DocMove text s s') : Move number line s s'
  | beginDoc {s : Scan} (top : s.inCode = false) : Move number line s { s with docSeen := true }
  | copyright {s : Scan} (top : s.inCode = false) :
      Move number line s
        { (s.appendLine .topMatter ('*' :: (Line.commentText line ++ ['*']))).appendLine
            .topMatter [] with copyrightSeen := true }
  | commitHeld {s : Scan} (top : s.inCode = false) : Move number line s s.commitHeld
  | hold {s : Scan} {text : Text} (top : s.inCode = false)
      (ht : text = Line.docText line ∨ text = Line.commentText line)
      (closed : s.fence.isOpen = false) : Move number line s { s with held := some text }
  | headHeld {s : Scan} {above : Text} {level : Nat} (top : s.inCode = false)
      (held : s.held = some above) :
      Move number line s
        { s.appendLine .topMatter (headingLine level above) with held := none }
  | enterCode {s : Scan} (top : s.inCode = false) (held : s.held = none)
      (closed : s.fence.isOpen = false) :
      Move number line s (note { s with inCode := true } (.codeReached number))
  | flush (s : Scan) : Move number line s s.flushPending
  | endDeclaration {s : Scan} (closed : s.fence.isOpen = false) :
      Move number line s s.endDeclaration
  | accept (s : Scan) : Move number line s { s with admitting := true }
  | enterSection (s : Scan) (o : OpenSection) : Move number line s (s.inSection o)
  | start {s : Scan} (idle : s.Idle) (hc : s.current = none) (hn : s.narrative = none)
      (routine : (Line.routine? line).isSome = true) :
      Move number line s { s with pending := { lines := [line], lineNumber := number } }
  | extend {s : Scan} (pending : s.pending.lines ≠ []) :
      Move number line s { s with pending := { s.pending with lines := s.pending.lines ++ [line] } }
  | replace (s : Scan) :
      Move number line s
        (note { s with pending := { s.pending with lines := [] } }
          (.replaced number s.pending.lineNumber))
  | declare {s : Scan} {code doc : Text} {category : Category} (idle : s.Idle)
      (pending : s.pending.lines = []) (hn : s.narrative = none)
      (part : code <:+: line ∧ doc <:+: line) :
      Move number line s (s.register (lineDeclaration code doc number category))
  | listImport {s : Scan} {bullet : Text} (h : Line.importBullet line.strip = some bullet) :
      Move number line s { s with outline.imports := s.outline.imports ++ [bullet] }
  | listInclude {s : Scan} {bullet : Text} (h : Line.includeBullet line.strip = some bullet) :
      Move number line s { s with outline.includes := s.outline.includes ++ [bullet] }
  | startCapture {s : Scan} (idle : s.Idle) (pending : s.pending.lines = []) :
      Move number line s (s.startCapture line)
  | capture {s : Scan} (active : s.capture.active = true) :
      Move number line s (s.captureLine line).2

/-! ## The operations on a fence as edits -/

variable {s s' : Scan} {text : Text} {place : Place}

theorem closeFence_of_closed (h : s.fence.isOpen = false) : s.closeFence = s := by
  unfold closeFence
  split
  · rfl
  · simp [h]

theorem closeFence_of_open (ho : s.fence.isOpen = true) (hp : s.fence.place = some place) :
    s.closeFence = { s.edit place (· ++ s.fence.closing) with fence := {} } := by
  simp only [closeFence, hp, ho, if_true, Fence.closing, appendLine, Outline.appendLine, edit]
  split
  · simp [Outline.modifyLines_modifyLines, Function.comp_def]
  · rfl

theorem openFence_eq (s : Scan) (place : Place) (text : Text) :
    s.openFence place text =
      { s.edit place (· ++ [if Line.isPlainBlock text then fenceMark else sourceFence]) with
        fence := { isOpen := true, atStart := true, place := some place } } := rfl

theorem writeFenced_eq (s : Scan) (place : Place) (width : Nat) (text : Text) :
    s.writeFenced place width text =
      { s.edit place (· ++ (s.fence.resuming ++ [Text.stripRight (text.drop width)])) with
        fence := { s.fence with blankHeld := false, atStart := false } } := by
  simp only [writeFenced, Fence.resuming, appendLine, Outline.appendLine, edit]
  split
  · simp [Outline.modifyLines_modifyLines, Function.comp_def]
  · simp

/-- What a doc text outside of code blocks can do at its place. -/
theorem docTextAt_cases (s : Scan) (place : Place) (text : Text) :
    s.docTextAt place text = s ∨
    s.docTextAt place text = s.edit place (· ++ [text]) ∨
    ∃ above level, (s.outline.linesAt place).getLast? = some above ∧
      above.isBlankText = false ∧ Text.startsWith fenceMark above = false ∧ level ≠ 0 ∧
      s.docTextAt place text = s.edit place (·.dropLast ++ [headingLine level above]) := by
  simp only [docTextAt]
  split
  · split
    · exact .inl rfl
    · exact .inr (.inl rfl)
  · next above h =>
    split
    · next hc =>
      simp only [Bool.and_eq_true, bne_iff_ne, ne_eq, Bool.not_eq_true'] at hc
      refine .inr (.inr ⟨above, _, h, hc.1.2, hc.2, ?_, rfl⟩)
      omega
    · exact .inr (.inl rfl)

/-! ## Moves keep a scan sound -/

/-- An open code block stands where doc lines go. -/
theorem Sound.docPlace_of_open (hs : s.Sound) (ho : s.fence.isOpen = true)
    (hp : s.fence.place = some place) : s.docPlace = some place := by
  obtain ⟨-, -, -, -, hd⟩ := hs.fence_open ho
  exact hd.symm.trans hp

theorem Sound.closeFence_cases (hs : s.Sound) :
    (s.fence.isOpen = false ∧ s.closeFence = s) ∨
    ∃ place, s.fence.isOpen = true ∧ s.fence.place = some place ∧ s.docPlace = some place ∧
      s.closeFence = { s.edit place (· ++ s.fence.closing) with fence := {} } := by
  cases ho : s.fence.isOpen with
  | false => exact .inl ⟨rfl, closeFence_of_closed ho⟩
  | true =>
    obtain ⟨place, hp⟩ := Option.isSome_iff_exists.1 (hs.fence.placed ho)
    exact .inr ⟨place, rfl, hp, hs.docPlace_of_open ho hp, closeFence_of_open ho hp⟩

theorem Sound.closeFence (hs : s.Sound) : s.closeFence.Sound := by
  rcases hs.closeFence_cases with ⟨-, he⟩ | ⟨place, -, -, -, he⟩ <;> rw [he]
  · exact hs
  · exact (hs.edit place _).unfenced

/-- A narrative may begin where doc lines have no place. -/
theorem Sound.commentPlace (hs : s.Sound) (free : s.Free) (hi : s.inCode = true)
    (hc : s.current = none) (hn : s.narrative = none) : s.commentPlace.2.Sound := by
  obtain ⟨hf, _, hp, _, ha⟩ := free
  unfold Scan.commentPlace
  simp only [hc, hn]
  split
  · next hl =>
    have hd : s.outline.declarations = [] := by simpa [hl] using hs.lastCategory.symm
    have ht : Sound { s with narrative := some .topMatter } :=
      { hs with
        fence_open := fun h => by simp [hf] at h
        pending := fun h => (h hp).elim
        current := fun i h => by simp [hc] at h
        narrative := fun place h => by cases h; exact ⟨ha, .inl ⟨rfl, hd⟩⟩
        top := fun h => by simp [hi] at h }
    split
    · exact ht.edit .topMatter (· ++ [[]])
    · exact ht
  · next category hl =>
    exact { hs with
      fence_open := fun h => by simp [hf] at h
      pending := fun h => (h hp).elim
      current := fun i h => by simp at h
      narrative := fun place h => by
        cases h
        exact ⟨ha, .inr ⟨_, { lineNumber := 0, isExported := true, category, heading := none },
          rfl, by simp [Outline.add], by simp [Outline.add], rfl⟩⟩
      lastCategory := by simp [Outline.add, hl]
      top := fun h => by simp [hi] at h
      exported := fun he d hd => by
        rcases List.mem_append.1 hd with hd | hd
        · exact hs.exported he d hd
        · rw [List.mem_singleton.1 hd] }

theorem Sound.unheld (hs : s.Sound) : Sound { s with held := none } :=
  { hs with
    fence_open := fun h => ⟨rfl, (hs.fence_open h).2⟩
    code := fun _ => rfl }

theorem Sound.commitHeld (hs : s.Sound) : s.commitHeld.Sound := by
  unfold Scan.commitHeld
  split
  · exact hs
  · next above _ => exact (hs.edit .topMatter (· ++ [above])).unheld

/-- A line of a block of examples may be taken, or end the block. -/
theorem Sound.captureLine (hs : s.Sound) (active : s.capture.active = true) (line : Text) :
    (s.captureLine line).2.Sound := by
  have capturing : ∀ c : Capture, (c.active = true ∨ c.bodyIndent = none) →
      Sound { s with capture := c } := by
    intro c hc
    exact { hs with
      fence_open := fun h => by have := (hs.fence_open h).2.2.1; simp [active] at this
      pending := fun h => by have := (hs.pending h).2.2.1; simp [active] at this
      top := fun h => by have := (hs.top h).2.2.2.2.1; simp [active] at this
      capture := fun h => by rcases hc with hc | hc <;> simp_all }
  unfold Scan.captureLine
  split
  · exact capturing _ (.inr rfl)
  · split
    · exact hs
    · next index _ =>
      split
      · refine hs.outline (Outline.heads_modify _ index fun d => ?_)
        split <;> rfl
      · have := capturing
          { s.capture with bodyIndent := some (s.capture.bodyIndent.getD line.indent) }
          (.inl active)
        refine this.outline (Outline.heads_modify _ index fun d => ?_)
        rfl

theorem DocMove.sound (hs : s.Sound) (h : DocMove text s s') : s'.Sound := by
  cases h with
  | @openFence place free at_ _ =>
    obtain ⟨_, hh, hp, hx, ha⟩ := free
    refine (hs.edit place _).fenced ?_ fun _ => ⟨hh, hp, hx, ha, at_.symm⟩
    exact { closed := nofun, placed := fun _ => rfl, start := fun _ => by simp,
            start_blank := fun _ => rfl, indent_pos := nofun }
  | closeFence => exact hs.closeFence
  | holdBlank ho ha =>
    refine hs.fenced ?_ fun _ => hs.fence_open ho
    exact { hs.fence with
      closed := fun h => by simp [ho] at h
      start_blank := fun h => by simp [ha] at h }
  | dropBlank ho =>
    refine hs.fenced ?_ fun _ => hs.fence_open ho
    exact { hs.fence with
      closed := fun h => by simp [ho] at h
      start_blank := fun _ => rfl }
  | @writeFenced place ho hp hi =>
    rw [writeFenced_eq]
    refine (hs.edit place _).fenced ?_ fun _ => hs.fence_open ho
    exact { hs.fence with
      closed := fun h => by simp [indented, ho] at h
      start := fun _ => by simp [indented]
      start_blank := nofun
      indent_pos := fun n hn => by
        cases hi' : s.fence.indent with
        | none => simp_all [indented]
        | some m => have := hs.fence.indent_pos m hi'; simp_all [indented] }
  | narrative free hc hcur hnar => exact hs.commentPlace free hc hcur hnar
  | @write place free _ at_ _ =>
    rcases docTextAt_cases s place text with h | h | ⟨above, level, -, -, -, -, h⟩ <;> rw [h]
    · exact hs
    · exact hs.edit place _
    · exact hs.edit place _

/-- What a doc text can do to the state: another fence, further lines at the place where doc
lines go, a heading in place of the last line there, or a new narrative. -/
inductive DocEffect (s : Scan) : Scan → Prop where
  | fence (fence : Fence) : DocEffect s { s with fence }
  | append {place : Place} (at_ : s.docPlace = some place) (ls : List Text) (fence : Fence) :
      DocEffect s { s.edit place (· ++ ls) with fence }
  | heading {place : Place} {above : Text} (at_ : s.docPlace = some place)
      (last : (s.outline.linesAt place).getLast? = some above) (text : above.isBlankText = false)
      (level : Nat) : DocEffect s (s.edit place (·.dropLast ++ [headingLine level above]))
  | narrative (hc : s.current = none) (hn : s.narrative = none) : DocEffect s s.commentPlace.2

theorem DocMove.effect (hs : s.Sound) (h : DocMove text s s') : DocEffect s s' := by
  cases h with
  | openFence _ at_ => exact .append at_ _ _
  | closeFence =>
    rcases hs.closeFence_cases with ⟨-, he⟩ | ⟨place, -, -, at_, he⟩ <;> rw [he]
    · exact .fence s.fence
    · exact .append at_ _ _
  | holdBlank | dropBlank => exact .fence _
  | writeFenced ho hp =>
    rw [writeFenced_eq]
    exact .append (hs.docPlace_of_open ho hp) _ _
  | narrative _ _ hc hn => exact .narrative hc hn
  | @write place _ _ at_ =>
    rcases docTextAt_cases s place text with h | h | ⟨above, level, hl, hb, -, -, h⟩ <;> rw [h]
    · exact .fence s.fence
    · exact .append at_ [text] s.fence
    · exact .heading at_ hl hb level

variable {number : Int} {line : Text}

theorem Move.sound (hn : 1 ≤ number) (hs : s.Sound) (h : Move number line s s') : s'.Sound := by
  cases h with
  | doc _ h => exact h.sound hs
  | beginDoc => exact { hs with }
  | copyright => exact { (hs.edit .topMatter (· ++ [_])).edit .topMatter (· ++ [[]]) with }
  | commitHeld => exact hs.commitHeld
  | hold top _ closed =>
    exact { hs with
      fence_open := fun h => by simp [closed] at h
      code := fun h => by simp [top] at h }
  | @headHeld above level => exact (hs.edit .topMatter (· ++ [headingLine level above])).unheld
  | enterCode top held closed =>
    obtain ⟨h1, h2, h3, h4, h5, h6⟩ := hs.top top
    exact { hs with
      fence_open := fun h => by simp [note, closed] at h
      top := nofun
      code := fun _ => held }
  | flush => exact hs.flushPending
  | endDeclaration closed => exact hs.endDeclaration closed
  | accept => exact hs.accept
  | enterSection => exact { hs with }
  | start idle hc hnar routine =>
    exact { hs with
      fence_open := fun h => by simp [idle.2.1] at h
      pending := fun _ => ⟨hc, hnar, idle.2.2, hn, line, [], rfl, routine⟩
      top := fun h => by simp [idle.1] at h }
  | extend pending =>
    obtain ⟨hc, hnar, hx, hl, first, rest, hp, hr⟩ := hs.pending pending
    have idle := hs.idle_of_pending pending
    exact { hs with
      fence_open := fun h => by simp [idle.2.1] at h
      pending := fun _ => ⟨hc, hnar, hx, hl, first, rest ++ [line], by simp [hp], hr⟩
      top := fun h => by simp [idle.1] at h }
  | replace => exact { hs.clearPending with }
  | declare idle pending hnar => exact hs.register idle pending hnar rfl
  | listImport => exact { hs.outline (o := { s.outline with imports := _ }) rfl with }
  | listInclude => exact { hs.outline (o := { s.outline with includes := _ }) rfl with }
  | startCapture idle pending =>
    exact { hs with
      fence_open := fun h => by simp [Scan.startCapture, idle.2.1] at h
      pending := fun h => (h pending).elim
      top := fun h => by simp [Scan.startCapture, idle.1] at h
      capture := nofun }
  | capture active => exact hs.captureLine active line

end Scan

end NimMarkdown
