import NimMarkdown.Proofs.Moves
import NimMarkdown.Proofs.Text

/-!
# A line is made of moves

`line_moves`: from a sound state a line of the source leads to a next state, and
the way there is made of moves. So the step of a scan never fails, and every
property that all moves keep is kept by a line.
-/

namespace NimMarkdown.Scan

open Relation

variable {s s' : Scan} {text line : Text} {number : Int} {place : Place}

/-- The moves of a line, one after the other. -/
abbrev Moves (number : Int) (line : Text) : Scan → Scan → Prop := ReflTransGen (Move number line)

theorem Moves.sound (hn : 1 ≤ number) (hs : s.Sound) (h : Moves number line s s') : s'.Sound := by
  induction h with
  | refl => exact hs
  | tail _ h ih => exact h.sound hn ih

/-! ## What the operations leave as it is -/

@[simp] theorem register_frame (s : Scan) (d : Declaration) :
    (s.register d).fence = s.fence ∧ (s.register d).pending = s.pending ∧
    (s.register d).capture = s.capture ∧ (s.register d).inCode = s.inCode ∧
    (s.register d).held = s.held ∧ (s.register d).narrative = s.narrative ∧
    (s.register d).exportedOnly = s.exportedOnly := by
  unfold register
  split <;> simp [note]

@[simp] theorem flushPending_frame (s : Scan) :
    s.flushPending.fence = s.fence ∧ s.flushPending.pending.lines = [] ∧
    s.flushPending.capture = s.capture ∧ s.flushPending.inCode = s.inCode ∧
    s.flushPending.held = s.held ∧ s.flushPending.narrative = s.narrative ∧
    s.flushPending.exportedOnly = s.exportedOnly := by
  unfold flushPending
  split <;> simp [*]

theorem flushPending_of_empty (hp : s.pending.lines = []) : s.flushPending = s := by
  simp [flushPending, hp]

theorem closeFence_frame (s : Scan) :
    s.closeFence.inCode = s.inCode ∧ s.closeFence.held = s.held := by
  unfold closeFence
  split
  · simp
  · split
    · split <;> simp [appendLine]
    · simp

theorem closeFence_isOpen (hs : s.Sound) : s.closeFence.fence.isOpen = false := by
  rcases hs.closeFence_cases with ⟨ho, he⟩ | ⟨place, -, -, -, he⟩ <;> rw [he]
  exact ho

theorem commitHeld_frame (s : Scan) :
    s.commitHeld.held = none ∧ s.commitHeld.inCode = s.inCode ∧
      s.commitHeld.fence = s.fence ∧ s.commitHeld.exportedOnly = s.exportedOnly := by
  unfold commitHeld
  split <;> simp [appendLine, *]

/-- A doc text changes the fence, the narrative and the outline only. -/
theorem DocMove.frame (hs : s.Sound) (h : DocMove text s s') :
    s'.pending = s.pending ∧ s'.capture = s.capture ∧ s'.inCode = s.inCode ∧
      s'.exportedOnly = s.exportedOnly := by
  cases h.effect hs with
  | fence | append | heading => exact ⟨rfl, rfl, rfl, rfl⟩
  | narrative hc hn =>
    simp only [commentPlace, hc, hn]
    split
    · split <;> exact ⟨rfl, rfl, rfl, rfl⟩
    · exact ⟨rfl, rfl, rfl, rfl⟩

theorem docMoves_sound (hs : s.Sound) (h : ReflTransGen (DocMove text) s s') : s'.Sound := by
  induction h with
  | refl => exact hs
  | tail _ h ih => exact h.sound ih

theorem docMoves_frame (hs : s.Sound) (h : ReflTransGen (DocMove text) s s') :
    s'.pending = s.pending ∧ s'.capture = s.capture ∧ s'.inCode = s.inCode := by
  induction h with
  | refl => exact ⟨rfl, rfl, rfl⟩
  | tail hm h ih =>
    obtain ⟨h1, h2, h3, -⟩ := h.frame (docMoves_sound hs hm)
    exact ⟨h1.trans ih.1, h2.trans ih.2.1, h3.trans ih.2.2⟩

/-! ## Code blocks and the top matter -/

theorem feedFence_moves (hs : s.Sound) (ho : s.fence.isOpen = true) (text : Text) :
    ∃ taken s', s.feedFence text = .ok (taken, s') ∧ ReflTransGen (DocMove text) s s' ∧
      (taken = false → s'.fence.isOpen = false) := by
  obtain ⟨place, hp⟩ := Option.isSome_iff_exists.1 (hs.fence.placed ho)
  unfold feedFence
  split
  · exact ⟨false, _, rfl, .single (.closeFence s), fun _ => closeFence_isOpen hs⟩
  · split
    · split
      · exact ⟨true, s, rfl, .refl, nofun⟩
      · next hb =>
        split
        · have drop : DocMove text s { s with fence := { s.fence with blankHeld := false } } :=
            .dropBlank ho
          exact ⟨false, _, rfl, .tail (.single drop) (.closeFence _),
            fun _ => closeFence_isOpen (drop.sound hs)⟩
        · exact ⟨true, _, rfl, .single (.holdBlank ho (by simpa using hb)), nofun⟩
    · next hb =>
      cases text with
      | nil => simp [Text.isBlankText] at hb
      | cons first rest =>
        simp only
        split
        · next hf =>
          have hi : 1 ≤ Text.indent (first :: rest) := by simp [Text.indent, hf]
          split
          · next hn => simp [hp] at hn
          · next hp => exact ⟨true, _, rfl, .single (.writeFenced ho hp hi), nofun⟩
        · exact ⟨false, _, rfl, .single (.closeFence s), fun _ => closeFence_isOpen hs⟩

theorem Moves.doc (ht : text = Line.docText line ∨ text = Line.commentText line)
    (h : ReflTransGen (DocMove text) s s') : Moves number line s s' := by
  induction h with
  | refl => exact .refl
  | tail _ h ih => exact .tail ih (.doc ht h)

theorem Sound.free_of_top (hs : s.Sound) (top : s.inCode = false) (closed : s.fence.isOpen = false)
    (held : s.held = none) : s.Free := by
  obtain ⟨hp, -, -, -, hx, ha⟩ := hs.top top
  exact ⟨closed, held, hp, hx, ha⟩

theorem topText_moves (hs : s.Sound) (top : s.inCode = false) (closed : s.fence.isOpen = false)
    (ht : text = Line.docText line ∨ text = Line.commentText line) :
    Moves number line s (s.topText text) := by
  have commit : Move number line s s.commitHeld := .commitHeld top
  obtain ⟨hh, hi, hf, -⟩ := commitHeld_frame s
  simp only [topText]
  split
  · next hd =>
    have free := hs.commitHeld.free_of_top (hi.trans top) (hf ▸ closed) hh
    exact .tail (.single commit) (.doc ht (.openFence free (by simp [docPlace, hi, top]) hd))
  · split
    · exact .single (.hold top ht closed)
    · next above hh =>
      split
      · exact .single (.headHeld top hh)
      · simp only [commitHeld, hh] at commit
        exact .tail (.single commit) (.hold top ht closed)

theorem topLine_moves (hs : s.Sound) (top : s.inCode = false)
    (ht : text = Line.docText line ∨ text = Line.commentText line) (number : Int) :
    ∃ s', s.topLine text = .ok s' ∧ Moves number line s s' := by
  unfold topLine
  split
  · next ho =>
    obtain ⟨taken, s1, he, hm, hc⟩ := feedFence_moves hs ho text
    rw [he]
    cases taken with
    | true => exact ⟨s1, rfl, .doc ht hm⟩
    | false =>
      have hs1 := docMoves_sound hs hm
      have top1 : s1.inCode = false := (docMoves_frame hs hm).2.2.trans top
      exact ⟨_, rfl, (Moves.doc ht hm).trans (topText_moves hs1 top1 (hc rfl) ht)⟩
  · next hc => exact ⟨_, rfl, topText_moves hs top (by simpa using hc) ht⟩

theorem topDoc_moves (hs : s.Sound) (top : s.inCode = false) (number : Int) (line : Text) :
    ∃ taken s', s.topDoc line = .ok (taken, s') ∧ Moves number line s s' := by
  unfold topDoc
  split
  · obtain ⟨s1, he, hm⟩ := topLine_moves hs top (.inl rfl) number
    rw [he]
    exact ⟨true, s1, rfl, hm⟩
  · split
    · exact ⟨_, s, rfl, .refl⟩
    · exact ⟨_, s, rfl, .refl⟩

theorem topComment_moves (hs : s.Sound) (top : s.inCode = false) (number : Int) (line : Text) :
    ∃ s', s.topComment line = .ok s' ∧ Moves number line s s' := by
  unfold topComment
  split
  · split
    · exact topLine_moves hs top (.inr rfl) number
    · exact ⟨_, rfl, .single (.copyright top)⟩
  · exact ⟨s, rfl, .refl⟩

theorem takeTop_moves (hs : s.Sound) (top : s.inCode = false) (number : Int) (line : Text) :
    ∃ taken s', s.takeTop line = .ok (taken, s') ∧ Moves number line s s' := by
  have begin_ : Move number line s { s with docSeen := true } := .beginDoc top
  unfold takeTop
  split
  · exact topDoc_moves hs top number line
  · split
    · obtain ⟨taken, s1, he, hm⟩ := topDoc_moves (s := { s with docSeen := true }) { hs with } top
        number line
      exact ⟨taken, s1, he, .head begin_ hm⟩
    · split
      · obtain ⟨s1, he, hm⟩ := topComment_moves hs top number line
        rw [he]
        exact ⟨true, s1, rfl, hm⟩
      · split
        · exact ⟨true, s, rfl, .refl⟩
        · exact ⟨false, _, rfl, .single begin_⟩

theorem topDoc_refused (h : s.topDoc line = .ok (false, s')) : s' = s := by
  unfold topDoc at h
  split at h
  · cases he : s.topLine (Line.docText line) with
    | error failure => simp [he, bind, Except.bind] at h
    | ok s1 => simp [he, bind, Except.bind, pure, Except.pure] at h
  · split at h <;> simp_all

/-- A line that is not part of the top matter has at most begun it. -/
theorem takeTop_refused (h : s.takeTop line = .ok (false, s')) :
    s' = { s with docSeen := true } := by
  unfold takeTop at h
  split at h
  · next hd => rw [topDoc_refused h, ← hd]
  · split at h
    · exact topDoc_refused h
    · split at h
      · cases he : s.topComment line with
        | error failure => simp [he, bind, Except.bind] at h
        | ok s1 => simp [he, bind, Except.bind, pure, Except.pure] at h
      · split at h <;> simp_all

theorem enterCode_moves (hs : s.Sound) (top : s.inCode = false) (number : Int) (line : Text) :
    Moves number line s (s.enterCode number) := by
  have commit : Move number line s s.commitHeld := .commitHeld top
  have close : Move number line s.commitHeld s.commitHeld.closeFence :=
    .doc (.inl rfl) (.closeFence _)
  obtain ⟨hh, hi, -⟩ := commitHeld_frame s
  obtain ⟨hi', hh'⟩ := closeFence_frame s.commitHeld
  refine .tail (.tail (.single commit) close) (.enterCode ?_ ?_ ?_)
  · rw [hi', hi, top]
  · rw [hh', hh]
  · exact closeFence_isOpen hs.commitHeld

/-! ## Lines of the code -/

theorem flushPending_moves (s : Scan) : Moves number line s s.flushPending := .single (.flush s)

theorem Idle.flushPending (idle : s.Idle) : s.flushPending.Idle := by
  simpa [Idle] using idle

theorem leave_moves (closed : s.fence.isOpen = false) :
    Moves number line s s.flushPending.endDeclaration :=
  (flushPending_moves s).tail (.endDeclaration (by simpa using closed))

/-- Where doc lines are taken, a place is found for them. -/
theorem commentPlace_spec (hi : s.inCode = true) (free : s.Free) (text : Text) :
    ReflTransGen (DocMove text) s s.commentPlace.2 ∧ s.commentPlace.2.Free ∧
      s.commentPlace.2.inCode = true ∧ s.commentPlace.2.docPlace = some s.commentPlace.1 := by
  cases hc : s.current with
  | some index =>
    have he : s.commentPlace = (.comment index, s) := by simp [commentPlace, hc]
    rw [he]
    exact ⟨.refl, free, hi, by simp [docPlace, hi, hc]⟩
  | none =>
    cases hn : s.narrative with
    | some place =>
      have he : s.commentPlace = (place, s) := by simp [commentPlace, hc, hn]
      rw [he]
      exact ⟨.refl, free, hi, by simp [docPlace, hi, hc, hn]⟩
    | none =>
      refine ⟨.single (.narrative free hi hc hn), ?_⟩
      simp only [commentPlace, hc, hn]
      split
      · split
        · exact ⟨free, hi, by simp [docPlace, appendLine, hi, hc]⟩
        · exact ⟨free, hi, by simp [docPlace, hi, hc]⟩
      · exact ⟨free, hi, by simp [docPlace, hi]⟩

/-- A doc text in the code, when no signature is open. -/
def takeDoc (s : Scan) (text : Text) : Scan :=
  if s.admitting then
    if Line.isCodeBlock text then s.commentPlace.2.openFence s.commentPlace.1 text
    else s.commentPlace.2.docTextAt s.commentPlace.1 text
  else s

theorem docLine_eq (s : Scan) (line : Text) :
    s.docLine line =
      if Line.isTodo (Line.docText line) then s
      else s.flushPending.takeDoc (Line.docText line) := rfl

theorem takeDoc_moves (hs : s.Sound) (idle : s.Idle) (pending : s.pending.lines = [])
    (kept : Line.isTodo text = false) : ReflTransGen (DocMove text) s (s.takeDoc text) := by
  unfold takeDoc
  split
  · next ha =>
    obtain ⟨hi, hf, hx⟩ := idle
    obtain ⟨hm, free, hi2, hp2⟩ := commentPlace_spec hi ⟨hf, hs.code hi, pending, hx, ha⟩ text
    refine hm.tail ?_
    split
    · next hd => exact .openFence free hp2 hd
    · next hd => exact .write free hi2 hp2 (by simpa using hd) kept
  · exact .refl

theorem docLine_moves (hs : s.Sound) (idle : s.Idle) : Moves number line s (s.docLine line) := by
  rw [docLine_eq]
  split
  · exact .refl
  · next kept =>
    have docs := takeDoc_moves hs.flushPending idle.flushPending (by simp) (by simpa using kept)
    exact (flushPending_moves s).trans (Moves.doc (.inl rfl) docs)

theorem startDeclaration_moves (idle : s.Idle) (routine : (Line.routine? line).isSome = true) :
    Moves number line s (s.startDeclaration line number) := by
  have start : Moves number line s
      { s.flushPending.endDeclaration with pending := { lines := [line], lineNumber := number } } :=
    (leave_moves idle.2.1).tail (.start idle.flushPending rfl rfl routine)
  simp only [startDeclaration]
  split
  · exact start.trans (flushPending_moves _)
  · exact start

theorem continueDeclaration_moves (pending : s.pending.lines ≠ []) :
    Moves number line s (s.continueDeclaration line) := by
  have extend : Moves number line s
      { s with pending := { s.pending with lines := s.pending.lines ++ [line] } } :=
    .single (.extend pending)
  simp only [continueDeclaration]
  split
  · exact extend.trans (flushPending_moves _)
  · exact extend

theorem declareLine_moves {code doc : Text} (idle : s.Idle) (pending : s.pending.lines = [])
    (part : code <:+: line ∧ doc <:+: line) (category : Category) :
    Moves number line s (s.declareLine code doc number category) := by
  rw [declareLine_eq]
  exact .tail (.single (.endDeclaration idle.2.1)) (.declare idle pending rfl part)

theorem declareIn_moves {code doc : Text} (idle : s.Idle) (pending : s.pending.lines = [])
    (part : code <:+: line ∧ doc <:+: line) (o : OpenSection) (category : Category) :
    Moves number line s ((s.inSection o).declareLine code doc number category) :=
  .head (.enterSection s o) (declareLine_moves (s := s.inSection o) idle pending part category)

/-- A signature that is not finished gives way to the element of a line. -/
def dropPending (s : Scan) (number : Int) : Scan :=
  if s.pending.lines.isEmpty then s
  else note { s with pending := { s.pending with lines := [] } }
    (.replaced number s.pending.lineNumber)

/-- The section that is open behind an element with a doc comment beside it. -/
def inlineSection (s : Scan) (code : Text) : OpenSection :=
  if code.indent == 0 then {}
  else if s.openSection.category.isSome && s.openSection.indent.isNone then
    { s.openSection with indent := some code.indent }
  else s.openSection

theorem inlineDoc_eq (s : Scan) (code doc : Text) (number : Int) :
    s.inlineDoc code doc number =
      ((s.dropPending number).inSection (s.inlineSection code)).declareLine code doc number
        (s.lineCategory code) := rfl

theorem dropPending_spec (idle : s.Idle) (number : Int) (line : Text) :
    Moves number line s (s.dropPending number) ∧ (s.dropPending number).Idle ∧
      (s.dropPending number).pending.lines = [] := by
  unfold dropPending
  split
  · next h => exact ⟨.refl, idle, List.isEmpty_iff.1 h⟩
  · exact ⟨.single (.replace s), idle, rfl⟩

theorem inlineDoc_moves {code doc : Text} (idle : s.Idle) (part : code <:+: line ∧ doc <:+: line) :
    Moves number line s (s.inlineDoc code doc number) := by
  obtain ⟨hm, idle', hp⟩ := dropPending_spec idle number line
  exact inlineDoc_eq s code doc number ▸ hm.trans (declareIn_moves idle' hp part _ _)

theorem importLine_moves (idle : s.Idle) (h : s.importLine line.strip = some s') :
    Moves number line s s' := by
  have listed : Moves number line s { s.flushPending.endDeclaration with admitting := true } :=
    (leave_moves idle.2.1).tail (.accept _)
  unfold importLine at h
  split at h
  · next bullet hb =>
    simp only [Option.some.injEq] at h
    exact h ▸ listed.tail (.listImport hb)
  · obtain ⟨bullet, hb, h⟩ := Option.map_eq_some_iff.1 h
    exact h ▸ listed.tail (.listInclude hb)

theorem sectionLine_moves (idle : s.Idle) (pending : s.pending.lines = []) (number : Int)
    (line : Text) :
    Moves number line s (s.sectionLine line number).2 := by
  have part : line.strip <:+: line ∧ [] <:+: line := ⟨Text.strip_part line, List.nil_infix⟩
  unfold sectionLine
  split
  · unfold sectionStart
    split
    · exact .single (.enterSection s {})
    · have left : Moves number line s (s.endDeclaration.inSection {}) :=
        .tail (.single (.endDeclaration idle.2.1)) (.enterSection _ {})
      simp only
      split
      · exact left.tail (.enterSection _ _)
      · split
        · exact .head (.endDeclaration idle.2.1)
            (declareIn_moves (s := s.endDeclaration) idle pending part {} _)
        · exact left
  · unfold sectionEntry
    split
    · exact .refl
    · simp only
      split
      · exact declareIn_moves idle pending part _ _
      · exact .single (.enterSection s _)

/-- A line that belongs to a section leaves everything open as it is. -/
theorem sectionLine_frame (s : Scan) (line : Text) (number : Int) :
    (s.sectionLine line number).2.fence = s.fence ∧
    (s.sectionLine line number).2.pending = s.pending ∧
    (s.sectionLine line number).2.capture = s.capture ∧
    (s.sectionLine line number).2.inCode = s.inCode := by
  unfold sectionLine
  split
  · unfold sectionStart
    split
    · simp
    · simp only
      split
      · simp [endDeclaration]
      · split <;> simp [declareLine_eq, endDeclaration]
  · unfold sectionEntry
    split
    · simp
    · simp only
      split <;> simp [declareLine_eq, endDeclaration]

theorem declarationLine_moves (idle : s.Idle) :
    Moves number line s (s.declarationLine number line) := by
  unfold declarationLine
  split
  · next routine =>
    exact .head (.enterSection s _) (startDeclaration_moves (s := s.inSection _) idle routine)
  · split
    · next h => exact continueDeclaration_moves (by simpa using h)
    · next h =>
      have pending : s.pending.lines = [] := by simpa using h
      have hm := sectionLine_moves idle pending number line
      obtain ⟨hf, hp, hx, hi⟩ := sectionLine_frame s line number
      simp only
      split
      · refine hm.tail (.startCapture ?_ (hp ▸ pending))
        exact ⟨hi ▸ idle.1, hf ▸ idle.2.1, hx ▸ idle.2.2⟩
      · exact hm

/-- Doc lines are taken again from a line without indent on. -/
def atMargin (s : Scan) (line : Text) : Scan :=
  if line.indent == 0 then { s with admitting := true } else s

/-- A line of code that is not blank. -/
def textLine (s : Scan) (number : Int) (line : Text) : Scan :=
  if Line.isDoc line then s.docLine line
  else match Line.splitInlineDoc line with
    | some (code, doc) => s.inlineDoc code doc number
    | none =>
      match s.importLine line.strip with
      | some s' => s'
      | none => s.declarationLine number line

theorem bodyLine_eq (s : Scan) (number : Int) (line : Text) :
    s.bodyLine number line =
      if line.isBlankText then s.flushPending.endDeclaration
      else (s.atMargin line).textLine number line := rfl

theorem textLine_moves (hs : s.Sound) (idle : s.Idle) :
    Moves number line s (s.textLine number line) := by
  unfold textLine
  split
  · exact docLine_moves hs idle
  · split
    · next h => exact inlineDoc_moves idle (Line.splitInlineDoc_part h)
    · split
      · next h => exact importLine_moves idle h
      · exact declarationLine_moves idle

theorem bodyLine_moves (hs : s.Sound) (idle : s.Idle) :
    Moves number line s (s.bodyLine number line) := by
  rw [bodyLine_eq]
  split
  · exact leave_moves idle.2.1
  · unfold atMargin
    split
    · exact .head (.accept s) (textLine_moves hs.accept idle)
    · exact textLine_moves hs idle

theorem fencedLine_moves (hs : s.Sound) (line : Text) :
    ∃ taken s', s.fencedLine line = .ok (taken, s') ∧
      ReflTransGen (DocMove (Line.docText line)) s s' ∧
      (taken = false → s'.fence.isOpen = false) := by
  unfold fencedLine
  split
  · next ho =>
    split
    · obtain ⟨taken, s1, he, hm, hc⟩ := feedFence_moves hs ho (Line.docText line)
      rw [he]
      cases taken with
      | true => exact ⟨true, s1, rfl, hm, nofun⟩
      | false =>
        exact ⟨false, _, rfl, hm.tail (.closeFence s1),
          fun _ => closeFence_isOpen (docMoves_sound hs hm)⟩
    · exact ⟨false, _, rfl, .single (.closeFence s), fun _ => closeFence_isOpen hs⟩
  · next hc => exact ⟨false, s, rfl, .refl, fun _ => by simpa using hc⟩

/-- A line of code outside of examples. -/
def plainLine (s : Scan) (number : Int) (line : Text) : Except Failure Scan := do
  let (taken, s') ← s.fencedLine line
  return if taken then s' else s'.bodyLine number line

theorem plainLine_of_taken (h : s.fencedLine line = .ok (true, s')) :
    s.plainLine number line = .ok s' := by
  rw [plainLine, h]
  rfl

theorem plainLine_of_refused (h : s.fencedLine line = .ok (false, s')) :
    s.plainLine number line = .ok (s'.bodyLine number line) := by
  rw [plainLine, h]
  rfl

/-- A scan in the code that does not read examples. -/
def Reading (s : Scan) : Prop := s.inCode = true ∧ s.capture.active = false

theorem fencedLine_reading (hs : s.Sound) (hr : s.Reading) (line : Text) :
    ∃ taken s', s.fencedLine line = .ok (taken, s') ∧
      ReflTransGen (DocMove (Line.docText line)) s s' ∧ (taken = false → s'.Idle) := by
  obtain ⟨taken, s', he, hm, hc⟩ := fencedLine_moves hs line
  obtain ⟨-, hx, hi⟩ := docMoves_frame hs hm
  exact ⟨taken, s', he, hm, fun ht => ⟨hi.trans hr.1, hc ht, hx ▸ hr.2⟩⟩

theorem plainLine_moves (hs : s.Sound) (hr : s.Reading) (number : Int) (line : Text) :
    ∃ s', s.plainLine number line = .ok s' ∧ Moves number line s s' := by
  obtain ⟨taken, s1, he, hd, idle⟩ := fencedLine_reading hs hr line
  have hm : Moves number line s s1 := Moves.doc (.inl rfl) hd
  cases taken with
  | true => exact ⟨s1, plainLine_of_taken he, hm⟩
  | false =>
    exact ⟨_, plainLine_of_refused he, hm.trans (bodyLine_moves (docMoves_sound hs hd) (idle rfl))⟩

/-- What a block of examples does with a line, if one is being read. -/
def captured (s : Scan) (line : Text) : Bool × Scan :=
  if s.capture.active then s.captureLine line else (false, s)

theorem captured_of_inactive (h : s.capture.active = false) : s.captured line = (false, s) := by
  simp [captured, h]

theorem codeLine_eq (s : Scan) (number : Int) (line : Text) :
    s.codeLine number line =
      if (s.captured line).1 then .ok (s.captured line).2
      else (s.captured line).2.plainLine number line := rfl

theorem captured_reading (hi : s.inCode = true) (h : (s.captured line).1 = false) :
    (s.captured line).2.Reading := by
  unfold captured at h ⊢
  split at h
  · next ha =>
    rw [if_pos ha]
    unfold captureLine at h ⊢
    split at h
    · next hc =>
      rw [if_pos hc]
      exact ⟨hi, rfl⟩
    · split at h
      · cases h
      · split at h <;> cases h
  · next ha =>
    rw [if_neg ha]
    exact ⟨hi, by simpa using ha⟩

theorem captured_moves (hs : s.Sound) (number : Int) (line : Text) :
    Moves number line s (s.captured line).2 ∧ (s.captured line).2.Sound := by
  unfold captured
  split
  · next h => exact ⟨.single (.capture h), hs.captureLine h line⟩
  · exact ⟨.refl, hs⟩

theorem codeLine_moves (hs : s.Sound) (inCode : s.inCode = true) (number : Int) (line : Text) :
    ∃ s', s.codeLine number line = .ok s' ∧ Moves number line s s' := by
  obtain ⟨hm, hs1⟩ := captured_moves hs number line
  rw [codeLine_eq]
  split
  · exact ⟨_, rfl, hm⟩
  · next hc =>
    have reading := captured_reading inCode (by simpa using hc)
    obtain ⟨s2, he, hm2⟩ := plainLine_moves hs1 reading number line
    exact ⟨s2, he, hm.trans hm2⟩

/-- What is done with a line: a guard line is passed over, the others are read as code or as top
matter, or are the first of the code. -/
inductive LineCase (number : Int) (line : Text) (s : Scan) : Prop where
  | guard (marked : Line.isMainGuard line = true) (read : s.line number line = .ok s)
  | code (inCode : s.inCode = true) (read : s.line number line = s.codeLine number line)
  | top {s' : Scan} (top : s.inCode = false) (taken : s.takeTop line = .ok (true, s'))
      (read : s.line number line = .ok s')
  | first (top : s.inCode = false)
      (refused : s.takeTop line = .ok (false, { s with docSeen := true }))
      (begun : Sound { s with docSeen := true })
      (entered : (enterCode { s with docSeen := true } number).Sound)
      (read : s.line number line =
        (enterCode { s with docSeen := true } number).codeLine number line)

theorem line_cases (hs : s.Sound) (hn : 1 ≤ number) (line : Text) : LineCase number line s := by
  cases hg : Line.isMainGuard line with
  | true => exact .guard hg (by rw [Scan.line, if_pos hg])
  | false =>
    cases top : s.inCode with
    | true => exact .code top (by rw [Scan.line, if_neg (by simp [hg]), if_pos top])
    | false =>
      obtain ⟨taken, s1, he, -⟩ := takeTop_moves hs top number line
      have read : s.line number line =
          if taken then .ok s1 else (s1.enterCode number).codeLine number line := by
        rw [Scan.line, if_neg (by simp [hg]), if_neg (by simp [top]), he]
        rfl
      cases taken with
      | true => exact .top top he read
      | false =>
        obtain rfl := takeTop_refused he
        have begun : Sound { s with docSeen := true } := { hs with }
        exact .first top he begun ((enterCode_moves begun top number line).sound hn begun) read

/-- **A line is made of moves**, and never fails. -/
theorem line_moves (hs : s.Sound) (hn : 1 ≤ number) (line : Text) :
    ∃ s', s.line number line = .ok s' ∧ Moves number line s s' := by
  cases line_cases hs hn line with
  | guard _ read => exact ⟨s, read, .refl⟩
  | code inCode read => exact read ▸ codeLine_moves hs inCode number line
  | top top taken read =>
    obtain ⟨_, s1, he, hm⟩ := takeTop_moves hs top number line
    obtain ⟨-, rfl⟩ := Prod.mk.inj (Except.ok.inj (taken.symm.trans he))
    exact ⟨_, read, hm⟩
  | first top _ begun entered read =>
    have seen : Move number line s { s with docSeen := true } := .beginDoc top
    obtain ⟨s2, he, hm⟩ := codeLine_moves entered rfl number line
    exact ⟨s2, read.trans he, .head seen ((enterCode_moves begun top number line).trans hm)⟩

theorem finish_moves (hs : s.Sound) : Moves 1 [] s s.finish := by
  have close (t : Scan) : Move 1 [] t t.closeFence := .doc (.inl rfl) (.closeFence t)
  have rest {t : Scan} (ht : t.Sound) :
      Moves 1 [] t t.closeFence.flushPending.endDeclaration :=
    .head (close t) (leave_moves (closeFence_isOpen ht))
  simp only [finish]
  split
  · exact rest hs
  · next hi => exact .head (.commitHeld (by simpa using hi)) (rest hs.commitHeld)

end NimMarkdown.Scan
