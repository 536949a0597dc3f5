import NimMarkdown.Proofs.Growth

/-!
# Where headings come from

The texts of an outline change in two ways: lines are written behind them, or an
underline makes a heading of the last line. In the code the underline sees only that
line, not where it is from. Here its history is told: it is the doc text of an
earlier line of the source, as it was written (`Unmodified`), or a heading that an
earlier underline has made (`Headed`). A heading that is still the last line cannot be
told from a text, so a further underline makes a heading of the heading; once a line
stands behind it, it stays as it is.

`Sequel` says what stands where doc lines go behind a line, `Traced` is the invariant
of a run that follows from it.
-/

namespace NimMarkdown

/-- The doc text that a line brings: its own, or that beside its code. -/
def Line.broughtText (line : Text) : Option Text :=
  if isDoc line then some (docText line) else (splitInlineDoc line).map Prod.snd

namespace Scan

variable {s s1 s' : Scan} {text line above : Text} {number : Int} {place : Place}

/-- No heading can be made of the last line where doc lines go. -/
def Clear (s : Scan) : Prop :=
  ∀ place above, s.docPlace = some place → (s.outline.linesAt place).getLast? = some above →
    above.isBlankText = true ∨ Text.startsWith fenceMark above = true

/-- What stands, behind a line, where doc lines go. -/
inductive Sequel (line : Text) (s s' : Scan) : Prop where
  | fenced (isOpen : s'.fence.isOpen = true)
  | clear (clear : s'.Clear)
  | same (inCode : s'.inCode = s.inCode) (docPlace : s'.docPlace = s.docPlace)
      (fence : s'.fence = s.fence) (lines : ∀ place, s.docPlace = some place →
        s'.outline.linesAt place = s.outline.linesAt place)
  | brought {place : Place} {text : Text} (at_ : s'.docPlace = some place)
      (brings : Line.broughtText line = some text)
      (last : (s'.outline.linesAt place).getLast? = some text)
      (longer : (s.outline.linesAt place).length < (s'.outline.linesAt place).length)
  | heading {place : Place} {above : Text} (heads : HeadsLast line s s' place above)

theorem Sequel.refl (line : Text) (s : Scan) : Sequel line s s := .same rfl rfl rfl fun _ _ => rfl

theorem clear_of_docPlace (h : s.docPlace = none) : s.Clear :=
  fun _ _ hp => nomatch h.symm.trans hp

theorem clear_endDeclaration (hi : s.inCode = true) : s.endDeclaration.Clear :=
  clear_of_docPlace (by simp [docPlace, endDeclaration, hi])

theorem Sequel.of_same (h : Sequel line s1 s') (outline : s1.outline = s.outline)
    (docPlace : s1.docPlace = s.docPlace) (fence : s1.fence = s.fence)
    (inCode : s1.inCode = s.inCode) : Sequel line s s' := by
  cases h with
  | fenced ho => exact .fenced ho
  | clear hc => exact .clear hc
  | same hi hp hf hl =>
    exact .same (hi.trans inCode) (hp.trans docPlace) (hf.trans fence) (outline ▸ docPlace ▸ hl)
  | brought at_ text last longer => exact .brought at_ text last (outline ▸ longer)
  | heading heads => exact .heading (heads.of_same outline docPlace fence inCode)

theorem Sequel.congr (h : Sequel line s s1) (outline : s'.outline = s1.outline)
    (docPlace : s'.docPlace = s1.docPlace) (fence : s'.fence = s1.fence)
    (inCode : s'.inCode = s1.inCode) : Sequel line s s' := by
  cases h with
  | fenced ho => exact .fenced (fence ▸ ho)
  | clear hc => exact .clear fun place above hp hl => hc place above (docPlace ▸ hp) (outline ▸ hl)
  | same hi hp hf hl =>
    exact .same (inCode.trans hi) (docPlace.trans hp) (fence.trans hf) fun place h =>
      outline ▸ hl place h
  | brought at_ brings last longer =>
    exact .brought (docPlace.trans at_) brings (outline ▸ last) (outline ▸ longer)
  | heading heads =>
    exact .heading
      { heads with outline := outline.trans heads.outline, stays := docPlace.trans heads.stays }

/-- Behind a state without a line for a heading only new lines matter. -/
theorem Sequel.of_clear (h : Sequel line s1 s') (hc : s1.Clear)
    (longer : ∀ place, (s.outline.linesAt place).length ≤ (s1.outline.linesAt place).length) :
    Sequel line s s' := by
  cases h with
  | fenced ho => exact .fenced ho
  | clear hc => exact .clear hc
  | same _ hp _ hl =>
    refine .clear fun place above hp' hlast => ?_
    rw [hp] at hp'
    exact hc place above hp' (hl place hp' ▸ hlast)
  | brought at_ text last hlt => exact .brought at_ text last ((longer _).trans_lt hlt)
  | heading heads =>
    rcases hc _ _ heads.at_ heads.last with hb | hf
    · rw [heads.text] at hb
      cases hb
    · rw [heads.plain] at hf
      cases hf

/-! ## Declarations -/

theorem register_sequel (hi : s.inCode = true) (hn : s.narrative = none) {d : Declaration}
    (hd : ∀ text, d.comment.getLast? = some text → Line.broughtText line = some text) :
    Sequel line s (s.register d) := by
  rcases register_docPlace hi hn d with ⟨-, hp⟩ | ⟨hp, hl⟩
  · exact .clear (clear_of_docPlace hp)
  · cases hlast : d.comment.getLast? with
    | none =>
      refine .clear fun place above hplace hl' => ?_
      obtain rfl := Option.some.inj (hp.symm.trans hplace)
      rw [hl, hlast] at hl'
      cases hl'
    | some text =>
      refine .brought hp (hd text hlast) (hl.symm ▸ hlast) ?_
      have before : s.outline.linesAt (.comment s.outline.declarations.length) = [] := by
        simp [Outline.linesAt]
      rw [before, hl]
      exact List.length_pos_iff.2 fun hnil => by simp [hnil] at hlast

theorem declareLine_sequel {code doc : Text} (hi : s.inCode = true)
    (hd : doc = [] ∨ Line.broughtText line = some doc) (number : Int) (category : Category) :
    Sequel line s (s.declareLine code doc number category) := by
  have below : Sequel line s.endDeclaration
      (s.endDeclaration.register (lineDeclaration code doc number category)) := by
    refine register_sequel (s := s.endDeclaration) hi rfl fun text hl => ?_
    simp only [lineDeclaration] at hl
    split at hl
    · cases hl
    · next hne =>
      cases hl
      refine hd.resolve_left fun hnil => hne ?_
      simp [hnil]
  exact declareLine_eq s code doc number category ▸
    below.of_clear (clear_endDeclaration hi) fun _ => Nat.le_refl _

theorem inlineDoc_sequel {code doc : Text} (hi : s.inCode = true)
    (hd : Line.broughtText line = some doc) (number : Int) :
    Sequel line s (s.inlineDoc code doc number) := by
  have dropped : ((s.dropPending number).inSection (s.inlineSection code)).outline = s.outline ∧
      ((s.dropPending number).inSection (s.inlineSection code)).docPlace = s.docPlace ∧
      ((s.dropPending number).inSection (s.inlineSection code)).fence = s.fence ∧
      ((s.dropPending number).inSection (s.inlineSection code)).inCode = s.inCode := by
    unfold dropPending
    split <;> exact ⟨rfl, rfl, rfl, rfl⟩
  obtain ⟨ho, hp, hf, hc⟩ := dropped
  rw [inlineDoc_eq]
  exact (declareLine_sequel (hc.trans hi) (.inr hd) number _).of_same ho hp hf hc

theorem clear_flushPending (hs : s.Sound) (hi : s.inCode = true) (hp : s.pending.lines ≠ []) :
    s.flushPending.Clear := by
  intro place above hplace hl
  rw [(flushPending_begun hs hp hi).2 place hplace] at hl
  cases hl

/-- A signature that ends with its first line has no comment yet. -/
theorem startDeclaration_sequel (hs : s.Sound) (idle : s.Idle) (hn : 1 ≤ number)
    (routine : (Line.routine? line).isSome = true) :
    Sequel line s (s.startDeclaration line number) := by
  let begun : Scan := { s.flushPending.endDeclaration with
    pending := { lines := [line], lineNumber := number } }
  have inCode : begun.inCode = true := by simpa [begun, endDeclaration] using idle.1
  have nowhere : begun.docPlace = none := by
    rw [docPlace, inCode]
    rfl
  have sound : begun.Sound := by
    have left := hs.flushPending.endDeclaration idle.flushPending.2.1
    exact Move.sound hn left (.start idle.flushPending rfl rfl routine)
  simp only [startDeclaration]
  split
  · exact .clear (clear_flushPending sound inCode (List.cons_ne_nil _ _))
  · exact .clear (clear_of_docPlace nowhere)

theorem continueDeclaration_sequel (hs : s.Sound) (idle : s.Idle) (hp : s.pending.lines ≠ [])
    (hn : 1 ≤ number) (line : Text) : Sequel line s (s.continueDeclaration line) := by
  have longer : Sound { s with pending := { s.pending with lines := s.pending.lines ++ [line] } } :=
    Move.sound hn hs (.extend hp)
  simp only [continueDeclaration]
  split
  · exact .clear (clear_flushPending longer idle.1 (by simp))
  · exact .same rfl rfl rfl fun _ _ => rfl

theorem sectionLine_sequel (hi : s.inCode = true) (line : Text) (number : Int) :
    Sequel line s (s.sectionLine line number).2 := by
  unfold sectionLine
  split
  · unfold sectionStart
    split
    · exact .same rfl rfl rfl fun _ _ => rfl
    · have left : Clear (s.endDeclaration.inSection {}) := clear_endDeclaration hi
      simp only
      split
      · exact .clear left
      · split
        · exact (declareLine_sequel (s := s.endDeclaration.inSection {}) hi (.inl rfl) number
            _).of_clear left fun _ => Nat.le_refl _
        · exact .clear left
  · unfold sectionEntry
    split
    · exact .refl line s
    · simp only
      split
      · exact (declareLine_sequel (s := s.inSection { s.openSection with
          indent := some (s.openSection.indent.getD line.indent) }) hi (.inl rfl) number
          _).of_same rfl rfl rfl rfl
      · exact .same rfl rfl rfl fun _ _ => rfl

theorem declarationLine_sequel (hs : s.Sound) (idle : s.Idle) (hn : 1 ≤ number) (line : Text) :
    Sequel line s (s.declarationLine number line) := by
  unfold declarationLine
  split
  · next routine =>
    exact (startDeclaration_sequel (s := s.inSection { s.openSection with category := none })
      { hs with } idle hn routine).of_same rfl rfl rfl rfl
  · split
    · next hp => exact continueDeclaration_sequel hs idle (by simpa using hp) hn line
    · have filed := sectionLine_sequel idle.1 line number
      simp only
      split
      · exact filed.congr rfl rfl rfl rfl
      · exact filed

/-! ## Doc lines -/

/-- A doc text where doc lines go. -/
theorem noteAt_sequel (hs : s.Sound) (hi : s.inCode = true) (closed : s.fence.isOpen = false)
    (at_ : s.docPlace = some place) (hd : Line.isDoc line = true) :
    Sequel line s (if Line.isCodeBlock (Line.docText line) then
      s.openFence place (Line.docText line) else s.docTextAt place (Line.docText line)) := by
  have brings : Line.broughtText line = some (Line.docText line) := by
    rw [Line.broughtText, if_pos hd]
  have append : Sequel line s (s.edit place (· ++ [Line.docText line])) := by
    have lines : (s.edit place (· ++ [Line.docText line])).outline.linesAt place =
        s.outline.linesAt place ++ [Line.docText line] := by
      rw [edit, Outline.linesAt_modifyLines (hs.has_docPlace at_), if_pos rfl]
    refine .brought at_ brings ?_ ?_
    · rw [lines, List.getLast?_concat]
    · rw [lines, List.length_append, List.length_singleton]
      omega
  split
  · exact .fenced rfl
  · simp only [docTextAt]
    split
    · split
      · exact .refl line s
      · exact append
    · next above hl =>
      split
      · next hc =>
        simp only [Bool.and_eq_true, bne_iff_ne, ne_eq, Bool.not_eq_true'] at hc
        exact .heading ⟨hd, hc.1.1, hi, closed, at_, hl, hc.1.2, hc.2, rfl, at_⟩
      · exact append

theorem takeDoc_sequel (hs : s.Sound) (idle : s.Idle) (pending : s.pending.lines = [])
    (hd : Line.isDoc line = true) : Sequel line s (s.takeDoc (Line.docText line)) := by
  obtain ⟨hi, hf, hx⟩ := idle
  unfold takeDoc
  split
  · next ha =>
    cases hp : s.docPlace with
    | some place =>
      rw [commentPlace_of_docPlace hi hp]
      exact noteAt_sequel hs hi hf hp hd
    | none =>
      obtain ⟨grown, blank⟩ := commentPlace_begun hs hi hp
      have free : s.Free := ⟨hf, hs.code hi, pending, hx, ha⟩
      obtain ⟨moves, free', hi', at_⟩ := commentPlace_spec hi free (Line.docText line)
      have clear : s.commentPlace.2.Clear := fun place above hplace hl =>
        .inl (blank above (Option.some.inj (at_.symm.trans hplace) ▸ hl))
      exact (noteAt_sequel (docMoves_sound hs moves) hi' free'.1 at_ hd).of_clear clear
        fun place => (grown.linesAt place).length_le
  · exact .refl line s

theorem docLine_sequel (hs : s.Sound) (idle : s.Idle) (hd : Line.isDoc line = true) :
    Sequel line s (s.docLine line) := by
  rw [docLine_eq]
  split
  · exact .refl line s
  · have taken := takeDoc_sequel hs.flushPending idle.flushPending (by simp) hd
    by_cases hp : s.pending.lines = []
    · rwa [flushPending_of_empty hp] at taken ⊢
    · exact taken.of_clear (clear_flushPending hs idle.1 hp) fun place =>
        ((flushPending_grows s).linesAt place).length_le

/-! ## Lines -/

theorem textLine_sequel (hs : s.Sound) (idle : s.Idle) (hn : 1 ≤ number) (line : Text) :
    Sequel line s (s.textLine number line) := by
  unfold textLine
  split
  · next hd => exact docLine_sequel hs idle hd
  · next hd =>
    split
    · next code doc hsplit =>
      refine inlineDoc_sequel idle.1 ?_ number
      rw [Line.broughtText, if_neg hd, hsplit]
      rfl
    · split
      · next s' h =>
        refine .clear (clear_of_docPlace ?_)
        unfold importLine at h
        split at h
        · cases h
          simp [docPlace, endDeclaration, idle.1]
        · obtain ⟨bullet, -, h⟩ := Option.map_eq_some_iff.1 h
          cases h
          simp [docPlace, endDeclaration, idle.1]
      · exact declarationLine_sequel hs idle hn line

theorem bodyLine_sequel (hs : s.Sound) (idle : s.Idle) (hn : 1 ≤ number) (line : Text) :
    Sequel line s (s.bodyLine number line) := by
  rw [bodyLine_eq]
  split
  · exact .clear (clear_endDeclaration idle.flushPending.1)
  · unfold atMargin
    split
    · exact (textLine_sequel hs.accept idle hn line).of_same rfl rfl rfl rfl
    · exact textLine_sequel hs idle hn line

theorem plainLine_sequel (hs : s.Sound) (hr : s.Reading) (hn : 1 ≤ number) (line : Text) :
    ∃ s', s.plainLine number line = .ok s' ∧ Sequel line s s' := by
  cases ho : s.fence.isOpen with
  | false =>
    exact ⟨_, plainLine_of_refused (fencedLine_of_closed ho),
      bodyLine_sequel hs ⟨hr.1, ho, hr.2⟩ hn line⟩
  | true =>
    obtain ⟨taken, s1, he, hm, idle⟩ := fencedLine_reading hs hr line
    obtain ⟨_, _, he', hg, hopen, hend⟩ := hs.fencedLine_grows ho line
    obtain ⟨rfl, rfl⟩ := Prod.mk.inj (Except.ok.inj (he.symm.trans he'))
    cases taken with
    | true => exact ⟨s1, plainLine_of_taken he, .fenced (hopen rfl)⟩
    | false =>
      exact ⟨_, plainLine_of_refused he, (bodyLine_sequel (docMoves_sound hs hm) (idle rfl) hn
        line).of_clear (hend rfl) fun place => (hg.linesAt place).length_le⟩

/-- Examples leave the comments as they are. -/
theorem captured_comments (s : Scan) (line : Text) :
    (s.captured line).2.inCode = s.inCode ∧ (s.captured line).2.docPlace = s.docPlace ∧
      (s.captured line).2.fence = s.fence ∧
      ∀ place, (s.captured line).2.outline.linesAt place = s.outline.linesAt place := by
  unfold captured
  split
  · unfold captureLine
    split
    · exact ⟨rfl, rfl, rfl, fun _ => rfl⟩
    · split
      · exact ⟨rfl, rfl, rfl, fun _ => rfl⟩
      · split
        · refine ⟨rfl, rfl, rfl, Outline.linesAt_modify _ _ fun d => ?_⟩
          split <;> rfl
        · exact ⟨rfl, rfl, rfl, Outline.linesAt_modify _ _ fun _ => rfl⟩
  · exact ⟨rfl, rfl, rfl, fun _ => rfl⟩

theorem codeLine_sequel (hs : s.Sound) (hi : s.inCode = true) (hn : 1 ≤ number) (line : Text) :
    ∃ s', s.codeLine number line = .ok s' ∧ Sequel line s s' := by
  rw [codeLine_eq]
  split
  · obtain ⟨inCode, docPlace, fence, lines⟩ := captured_comments s line
    exact ⟨_, rfl, .same inCode docPlace fence fun place _ => lines place⟩
  · next hc =>
    have hc : (s.captured line).1 = false := by simpa using hc
    obtain ⟨s', he, h⟩ := plainLine_sequel (captured_moves hs number line).2
      (captured_reading hi hc) hn line
    obtain ⟨capture, same⟩ := captured_refused hc
    rw [same] at h
    exact ⟨s', he, h.of_same rfl rfl rfl rfl⟩

theorem line_sequel (hs : s.Sound) (hn : 1 ≤ number) (line : Text) :
    ∃ s', s.line number line = .ok s' ∧ (s'.inCode = true → Sequel line s s') := by
  cases line_cases hs hn line with
  | guard _ read => exact ⟨s, read, fun _ => .refl line s⟩
  | code inCode read =>
    obtain ⟨s', he, h⟩ := codeLine_sequel hs inCode hn line
    exact ⟨s', read.trans he, fun _ => h⟩
  | top top taken read =>
    obtain ⟨_, _, he, h⟩ := takeTop_addsTop hs top line
    obtain ⟨-, rfl⟩ := Prod.mk.inj (Except.ok.inj (taken.symm.trans he))
    refine ⟨_, read, fun hc => ?_⟩
    rw [h.inCode, top] at hc
    cases hc
  | first top _ begun entered read =>
    have nowhere := (enterCode_docPlace begun top number).2
    obtain ⟨s2, he, h⟩ := codeLine_sequel entered rfl hn line
    exact ⟨s2, read.trans he, fun _ => h.of_clear (clear_of_docPlace nowhere) fun place =>
      ((enterCode_grows begun top number).linesAt place).length_le⟩

/-! ## Histories -/

variable {exportedOnly : Bool} {ls : List Text} {i : Nat}

/-- Behind the lines `ls`, line `i` at a place is the doc text of one of them, and has been that
ever since. -/
inductive Unmodified (exportedOnly : Bool) : List Text → Place → Nat → Text → Prop where
  | written {ls : List Text} {line text : Text} {s s' : Scan} {place : Place} {i : Nat}
      (before : HasRead exportedOnly ls s) (read : HasRead exportedOnly (ls ++ [line]) s')
      (isNew : (s.outline.linesAt place).length ≤ i)
      (there : (s'.outline.linesAt place)[i]? = some text)
      (brings : Line.broughtText line = some text) :
      Unmodified exportedOnly (ls ++ [line]) place i text
  | kept {ls : List Text} {line text : Text} {s' : Scan} {place : Place} {i : Nat}
      (earlier : Unmodified exportedOnly ls place i text)
      (read : HasRead exportedOnly (ls ++ [line]) s')
      (there : (s'.outline.linesAt place)[i]? = some text) :
      Unmodified exportedOnly (ls ++ [line]) place i text

/-- Behind the lines `ls`, line `i` at a place is a heading that one of them has made, and has
been that ever since. -/
inductive Headed (exportedOnly : Bool) : List Text → Place → Nat → Text → Prop where
  | made {ls : List Text} {line above heading : Text} {s s' : Scan} {place : Place} {i : Nat}
      (before : HasRead exportedOnly ls s) (read : HasRead exportedOnly (ls ++ [line]) s')
      (heads : HeadsLast line s s' place above)
      (isLast : i + 1 = (s.outline.linesAt place).length)
      (there : (s'.outline.linesAt place)[i]? = some heading) :
      Headed exportedOnly (ls ++ [line]) place i heading
  | kept {ls : List Text} {line heading : Text} {s' : Scan} {place : Place} {i : Nat}
      (earlier : Headed exportedOnly ls place i heading)
      (read : HasRead exportedOnly (ls ++ [line]) s')
      (there : (s'.outline.linesAt place)[i]? = some heading) :
      Headed exportedOnly (ls ++ [line]) place i heading

theorem Headed.there (h : Headed exportedOnly ls place i text) (read : HasRead exportedOnly ls s) :
    (s.outline.linesAt place)[i]? = some text := by
  cases h with
  | made before read' heads isLast there => exact read.unique read' ▸ there
  | kept earlier read' there => exact read.unique read' ▸ there

/-- A line at a place is a doc text as it was written, or a heading. -/
def Traceable (exportedOnly : Bool) (ls : List Text) (place : Place) (i : Nat) (text : Text) :
    Prop :=
  Unmodified exportedOnly ls place i text ∨ Headed exportedOnly ls place i text

theorem Traceable.kept (h : Traceable exportedOnly ls place i text)
    (read : HasRead exportedOnly (ls ++ [line]) s')
    (there : (s'.outline.linesAt place)[i]? = some text) :
    Traceable exportedOnly (ls ++ [line]) place i text :=
  h.imp (·.kept read there) (·.kept read there)

/-- Behind the lines `ls`, the line that the next underline makes a heading of can be traced. -/
structure Traced (exportedOnly : Bool) (ls : List Text) (s : Scan) : Prop where
  read : HasRead exportedOnly ls s
  last : s.inCode = true → s.fence.isOpen = false → ∀ place text, s.docPlace = some place →
    (s.outline.linesAt place).getLast? = some text → text.isBlankText = false →
    Text.startsWith fenceMark text = false →
    Traceable exportedOnly ls place ((s.outline.linesAt place).length - 1) text

theorem getLast?_eq_getElem? {ls : List Text} {text : Text} (h : ls.getLast? = some text) :
    ls[ls.length - 1]? = some text :=
  List.getLast?_eq_getElem?.symm.trans h

theorem HeadsLast.linesAt (h : HeadsLast line s s' place above) (hs : s.Sound) (other : Place) :
    s'.outline.linesAt other = if other = place then (s.outline.linesAt place).dropLast ++
      [headingLine (Line.underlineLevel (Line.docText line) + headingOffset place) above]
      else s.outline.linesAt other := by
  rw [h.outline, Outline.replaceLast, Outline.linesAt_modifyLines (hs.has_docPlace h.at_)]

/-- What can be traced before a line can be traced behind it. -/
theorem Traced.step (h : Traced exportedOnly ls s) (line : Text) :
    ∃ s', Traced exportedOnly (ls ++ [line]) s' := by
  have hs := h.read.sound
  have hn : (1 : Int) ≤ (ls.length + 1 : Nat) := by omega
  obtain ⟨s', he, sequel⟩ := line_sequel hs hn line
  have read : HasRead exportedOnly (ls ++ [line]) s' := (h.read.concat line).2 he
  refine ⟨s', read, fun hi hf place text at_ hl text_ plain => ?_⟩
  have there := getLast?_eq_getElem? hl
  cases sequel hi with
  | fenced isOpen => exact nomatch hf.symm.trans isOpen
  | clear clear =>
    rcases clear place text at_ hl with hb | hm
    · exact nomatch text_.symm.trans hb
    · exact nomatch plain.symm.trans hm
  | same inCode docPlace fence lines =>
    have at' : s.docPlace = some place := docPlace.symm.trans at_
    rw [lines place at'] at hl ⊢
    exact (h.last (inCode ▸ hi) (fence ▸ hf) place text at' hl text_ plain).kept read
      (lines place at' ▸ there)
  | brought at' brings last longer =>
    obtain rfl := Option.some.inj (at'.symm.trans at_)
    obtain rfl := Option.some.inj (last.symm.trans hl)
    exact .inl (.written h.read read (by omega) there brings)
  | heading heads =>
    obtain rfl := Option.some.inj (heads.stays.symm.trans at_)
    obtain ⟨init, before⟩ := List.getLast?_eq_some_iff.1 heads.last
    refine .inr (.made h.read read heads ?_ there)
    rw [heads.linesAt hs, if_pos rfl, before]
    simp

theorem traced (exportedOnly : Bool) (ls : List Text) : ∃ s, Traced exportedOnly ls s := by
  induction ls using List.reverseRecOn with
  | nil => exact ⟨fresh exportedOnly, rfl, nofun⟩
  | append_singleton ls line ih =>
    obtain ⟨s, h⟩ := ih
    exact h.step line

/-- What a line does to the lines at a place: others come behind them, or an underline makes a
heading of the last one, of which it is known where it comes from. -/
inductive Revises (exportedOnly : Bool) (ls : List Text) (line : Text) (s s' : Scan)
    (place : Place) : Prop where
  | appended (kept : s.outline.linesAt place <+: s'.outline.linesAt place)
  | headed {init : List Text} {above : Text} (heads : HeadsLast line s s' place above)
      (before : s.outline.linesAt place = init ++ [above])
      (after : s'.outline.linesAt place = init ++
        [headingLine (Line.underlineLevel (Line.docText line) + headingOffset place) above])
      (origin : Traceable exportedOnly ls place init.length above)

theorem Traced.revises (h : Traced exportedOnly ls s)
    (read : HasRead exportedOnly (ls ++ [line]) s') (place : Place) :
    Revises exportedOnly ls line s s' place := by
  have hs := h.read.sound
  have hn : (1 : Int) ≤ (ls.length + 1 : Nat) := by omega
  obtain ⟨_, he, advances⟩ := line_grows hs hn line
  obtain rfl := read.unique ((h.read.concat line).2 he)
  rcases advances with grown | ⟨other, above, heads⟩
  · exact .appended (grown.linesAt place)
  · have after := heads.linesAt hs place
    split at after
    · next hp =>
      subst hp
      obtain ⟨init, before⟩ := List.getLast?_eq_some_iff.1 heads.last
      have origin :=
        h.last heads.inCode heads.closed _ _ heads.at_ heads.last heads.text heads.plain
      simp only [before, List.length_append, List.length_singleton, Nat.add_sub_cancel] at origin
      exact .headed heads before (by simpa [before] using after) origin
    · exact .appended (after ▸ List.prefix_rfl)

/-- A heading stays, unless a further underline finds it as the last line. -/
theorem Headed.stays (h : Headed exportedOnly ls place i text)
    (revises : Revises exportedOnly ls line s s' place) (read : HasRead exportedOnly ls s)
    (read' : HasRead exportedOnly (ls ++ [line]) s') :
    Headed exportedOnly (ls ++ [line]) place i text ∨
      i + 1 = (s.outline.linesAt place).length ∧ HeadsLast line s s' place text := by
  have there := h.there read
  cases revises with
  | appended kept =>
    obtain ⟨rest, hrest⟩ := kept
    obtain ⟨hi, -⟩ := List.getElem?_eq_some_iff.1 there
    exact .inl (h.kept read' (by rw [← hrest, List.getElem?_append_left hi, there]))
  | @headed init above heads before after origin =>
    rw [before] at there
    by_cases hi : i < init.length
    · rw [List.getElem?_append_left hi] at there
      exact .inl (h.kept read' (by rw [after, List.getElem?_append_left hi, there]))
    · obtain ⟨hlt, hget⟩ := List.getElem?_eq_some_iff.1 there
      simp only [List.length_append, List.length_singleton] at hlt
      obtain rfl : i = init.length := by omega
      simp only [List.getElem_concat_length] at hget
      exact .inr ⟨by simp [before], hget ▸ heads⟩

end Scan

namespace Source

/-- **Where headings come from.** Over the whole scan of a source a line lets the texts grow at
their end, or makes a heading of a last line that is a doc text as it was written, or a heading
itself; every other heading stays as it is. The end of the scan lets the texts grow. -/
theorem scan_headings (options : Options) (content : Text) :
    let hasRead := Scan.HasRead (options.on .exportedOnly)
    let headed := Scan.Headed (options.on .exportedOnly)
    let ls := Scan.sourceLines content
    (∀ n line, ls[n]? = some line → ∃ s s', hasRead (ls.take n) s ∧ hasRead (ls.take (n + 1)) s' ∧
      ∀ place, Scan.Revises (options.on .exportedOnly) (ls.take n) line s s' place ∧
        ∀ i heading, headed (ls.take n) place i heading →
          headed (ls.take (n + 1)) place i heading ∨
            i + 1 = (s.outline.linesAt place).length ∧ Scan.HeadsLast line s s' place heading) ∧
    ∃ s, hasRead ls s ∧ scan options content = .ok s.finish ∧
      ∀ place, s.outline.linesAt place <+: s.finish.outline.linesAt place := by
  intro hasRead headed ls
  refine ⟨fun n line hline => ?_, ?_⟩
  · obtain ⟨s, traced⟩ := Scan.traced (options.on .exportedOnly) (ls.take n)
    obtain ⟨s', traced'⟩ := traced.step line
    have next : ls.take n ++ [line] = ls.take (n + 1) := by
      rw [List.take_add_one, hline]
      rfl
    refine ⟨s, s', traced.read, next ▸ traced'.read, fun place => ?_⟩
    have revises := traced.revises traced'.read place
    exact ⟨revises, fun i heading h => next ▸ h.stays revises traced.read traced'.read⟩
  · obtain ⟨s, read, hs⟩ := Scan.lines_ok (options.on .exportedOnly) ls
    refine ⟨s, read, ?_, (Scan.finish_grows hs).linesAt⟩
    rw [scan, Scan.source_of_lines read]
    rfl

/-- A routine whose doc comment has a line with two underlines. -/
def twiceUnderlined : Text := "proc p*() =\n  ## Title\n  ## ---\n  ## ---\n".toList

/-- The second underline finds the heading that the first one has made, and makes a heading of
it. -/
theorem scan_headings_twiceUnderlined :
    let comment n := ((Scan.fresh false).lines 1 ((Scan.sourceLines twiceUnderlined).take n)).map
      (·.outline.linesAt (.comment 0))
    comment 2 = .ok ["Title".toList] ∧ comment 3 = .ok ["#### Title".toList] ∧
      comment 4 = .ok ["#### #### Title".toList] := by
  decide +kernel

end Source

end NimMarkdown
