import NimMarkdown.Proofs.Mirror
import NimMarkdown.Proofs.Run

/-!
# Leaving out what is not exported

Two scans of one source, of which the second leaves out the declarations that
are not exported, stay side by side (`Mirrors`) through every line. So leaving
them out before they are registered is the same as taking them away afterwards:
the exported declarations have the same comments, examples and order in both
outlines. Only narratives may come to stand elsewhere.
-/

namespace NimMarkdown

namespace Scan

open Relation

variable {s s' f f' p p' : Scan} {text line : Text} {number : Int} {d : Declaration}

/-! ## Declarations side by side -/

/-- A declaration leads to the same state, or is left out. -/
theorem register_onlyExported (hs : s.Sound) (ho : s.onlyExported.Sound) (idle : s.Idle)
    (hn : s.narrative = none) (he : s.exportedOnly = false) (hd : d.heading.isSome = true) :
    s.onlyExported.register d = (s.register d).onlyExported ∨
      Apart (s.register d) (s.onlyExported.register d) := by
  have hreg : s.register d = { s with
      outline := s.outline.add d
      current := some s.outline.declarations.length
      admitting := true
      lastCategory := some d.category } := by simp [register, he]
  cases hx : d.isExported with
  | true =>
    left
    rw [hreg]
    simp [register, onlyExported, hx]
  | false =>
    right
    have hout : s.onlyExported.register d = note { s.onlyExported with
        current := none, admitting := false } (.discarded (d.heading.getD []) d.lineNumber) := by
      simp [register, onlyExported, hx]
    refine ⟨?_, ?_, ?_, ?_⟩
    · rw [hout]
      exact idle.1
    · simp [hreg, Outline.add]
    · rw [view_register hs idle hd, view_register ho idle hd]
      rfl
    · refine ⟨[], ?_, fun h => ?_⟩
      · rw [hreg, hout, List.append_nil]
        rfl
      · rw [hout] at h
        cases hn.symm.trans h

theorem flushPending_onlyExported (hs : s.Sound) (ho : s.onlyExported.Sound)
    (he : s.exportedOnly = false) :
    s.onlyExported.flushPending = s.flushPending.onlyExported ∨
      Apart s.flushPending s.onlyExported.flushPending := by
  cases hl : s.pending.lines with
  | nil => simp [flushPending, onlyExported, hl]
  | cons first rest =>
    have hne : s.pending.lines ≠ [] := by simp [hl]
    simp only [flushPending, show s.onlyExported.pending = s.pending from rfl, hl]
    exact register_onlyExported (s := { s with pending := { s.pending with lines := [] } })
      hs.clearPending ho.clearPending (hs.idle_of_pending hne) (hs.pending hne).2.1 he rfl

theorem Mirrors.flushPending (h : Mirrors f p) : Mirrors f.flushPending p.flushPending := by
  have flush (s : Scan) : Moves 1 [] s s.flushPending := flushPending_moves s
  refine h.moves (by decide) (flush f) (flush p) (flushPending_view h.full h.part h.same) ?_
  rintro rfl
  exact flushPending_onlyExported h.full h.part h.unfiltered

theorem Mirrors.endDeclaration (h : Mirrors f p) (hf : f.fence.isOpen = false)
    (hp : p.fence.isOpen = false) : Mirrors f.endDeclaration p.endDeclaration := by
  have leave {s : Scan} (hs : s.fence.isOpen = false) : Move 1 [] s s.endDeclaration :=
    .endDeclaration hs
  refine h.move (by decide) (leave hf) (leave hp) ?_ ?_
  · exact congrArg (fun v : View => { v with focus := none }) h.same
  · rintro rfl
    rfl

theorem Mirrors.accept (h : Mirrors f p) :
    Mirrors { f with admitting := true } { p with admitting := true } := by
  have accept (s : Scan) : Move 1 [] s { s with admitting := true } := .accept s
  refine h.move (by decide) (accept f) (accept p) h.same ?_
  rintro rfl
  rfl

theorem Mirrors.inSection (h : Mirrors f p) (o : OpenSection) :
    Mirrors (f.inSection o) (p.inSection o) := by
  have enter (s : Scan) : Move 1 [] s (s.inSection o) := .enterSection s o
  refine h.move (by decide) (enter f) (enter p) ?_ ?_
  · exact congrArg (fun v : View => { v with openSection := o }) h.same
  · rintro rfl
    rfl

theorem Mirrors.declareLine (h : Mirrors f p) (hn : 1 ≤ number) (hf : f.Idle) (hp : p.Idle)
    (pending : f.pending.lines = []) (code doc : Text) (category : Category) :
    Mirrors (f.declareLine code doc number category) (p.declareLine code doc number category) := by
  have left := h.endDeclaration hf.2.1 hp.2.1
  have part : code <:+: code ++ doc ∧ doc <:+: code ++ doc :=
    ⟨(List.prefix_append _ _).isInfix, (List.suffix_append _ _).isInfix⟩
  have declare {s : Scan} (hi : s.Idle) (hp : s.pending.lines = []) :
      Moves number (code ++ doc) s.endDeclaration
        (s.endDeclaration.register (lineDeclaration code doc number category)) :=
    .single (.declare hi hp rfl part)
  rw [declareLine_eq, declareLine_eq]
  refine left.moves hn (declare hf pending) (declare hp (h.pending ▸ pending)) ?_ fun he => ?_
  · rw [view_register left.full hf rfl, view_register left.part hp rfl, left.same]
  · have hpart := left.part
    rw [he] at hpart ⊢
    exact register_onlyExported left.full hpart hf rfl left.unfiltered rfl

/-! ## Lines of the code side by side -/

theorem Mirrors.leave (h : Mirrors f p) (hf : f.Idle) (hp : p.Idle) :
    Mirrors f.flushPending.endDeclaration p.flushPending.endDeclaration :=
  h.flushPending.endDeclaration hf.flushPending.2.1 hp.flushPending.2.1

theorem Mirrors.startDeclaration (h : Mirrors f p) (hn : 1 ≤ number) (hf : f.Idle) (hp : p.Idle)
    (routine : (Line.routine? line).isSome = true) :
    Mirrors (f.startDeclaration line number) (p.startDeclaration line number) := by
  have start {s : Scan} (hi : s.Idle) : Move number line s.flushPending.endDeclaration
      { s.flushPending.endDeclaration with pending := { lines := [line], lineNumber := number } } :=
    .start hi.flushPending rfl rfl routine
  have begun := (h.leave hf hp).move hn (start hf) (start hp)
    (congrArg (fun v : View => { v with pending := { lines := [line], lineNumber := number } })
      (h.leave hf hp).same)
    (fun he => by rw [he]; rfl)
  simp only [Scan.startDeclaration]
  split
  · exact begun.flushPending
  · exact begun

theorem Mirrors.continueDeclaration (h : Mirrors f p) (pending : f.pending.lines ≠ [])
    (line : Text) :
    Mirrors (f.continueDeclaration line) (p.continueDeclaration line) := by
  have extend {s : Scan} (hp : s.pending.lines ≠ []) : Move 1 line s
      { s with pending := { s.pending with lines := s.pending.lines ++ [line] } } := .extend hp
  have longer := h.move (by decide) (extend pending) (extend (h.pending ▸ pending))
    (congrArg (fun v : View =>
      { v with pending := { v.pending with lines := v.pending.lines ++ [line] } }) h.same)
    (fun he => by rw [he]; rfl)
  simp only [Scan.continueDeclaration]
  split
  · exact longer.flushPending
  · exact longer

theorem Mirrors.dropPending (h : Mirrors f p) (hn : 1 ≤ number) :
    Mirrors (f.dropPending number) (p.dropPending number) := by
  simp only [Scan.dropPending, h.pending]
  split
  · exact h
  · have drop (s : Scan) : Move number [] s
        (note { s with pending := { s.pending with lines := [] } }
          (.replaced number s.pending.lineNumber)) := .replace s
    have hp := drop p
    rw [h.pending] at hp
    refine h.move hn (drop f) hp ?_ ?_
    · exact congrArg (fun v : View => { v with pending := { f.pending with lines := [] } }) h.same
    · rintro rfl
      rfl

theorem Mirrors.inlineDoc (h : Mirrors f p) (hn : 1 ≤ number) (hf : f.Idle) (hp : p.Idle)
    (code doc : Text) : Mirrors (f.inlineDoc code doc number) (p.inlineDoc code doc number) := by
  obtain ⟨-, hf', pending⟩ := dropPending_spec hf number code
  obtain ⟨-, hp', -⟩ := dropPending_spec hp number code
  have hsection : p.inlineSection code = f.inlineSection code := by
    simp only [inlineSection, h.openSection]
  have hcategory : p.lineCategory code = f.lineCategory code := by
    simp only [lineCategory, h.openSection]
  rw [inlineDoc_eq, inlineDoc_eq, hsection, hcategory]
  exact ((h.dropPending hn).inSection (f.inlineSection code)).declareLine hn hf' hp' pending code
    doc (f.lineCategory code)

theorem Mirrors.listImport (h : Mirrors f p) {bullet : Text}
    (hb : Line.importBullet line.strip = some bullet) :
    Mirrors { f with outline.imports := f.outline.imports ++ [bullet] }
      { p with outline.imports := p.outline.imports ++ [bullet] } := by
  have list (s : Scan) :
      Move 1 line s { s with outline.imports := s.outline.imports ++ [bullet] } := .listImport hb
  refine h.move (by decide) (list f) (list p) ?_ ?_
  · exact congrArg (fun v : View => { v with imports := v.imports ++ [bullet] }) h.same
  · rintro rfl
    rfl

theorem Mirrors.listInclude (h : Mirrors f p) {bullet : Text}
    (hb : Line.includeBullet line.strip = some bullet) :
    Mirrors { f with outline.includes := f.outline.includes ++ [bullet] }
      { p with outline.includes := p.outline.includes ++ [bullet] } := by
  have list (s : Scan) :
      Move 1 line s { s with outline.includes := s.outline.includes ++ [bullet] } := .listInclude hb
  refine h.move (by decide) (list f) (list p) ?_ ?_
  · exact congrArg (fun v : View => { v with includes := v.includes ++ [bullet] }) h.same
  · rintro rfl
    rfl

/-- A line that imports or includes something does so in both scans. -/
theorem Mirrors.importLine (h : Mirrors f p) (hf : f.Idle) (hp : p.Idle) (line : Text) :
    (f.importLine line.strip = none ∧ p.importLine line.strip = none) ∨
      ∃ f' p', f.importLine line.strip = some f' ∧ p.importLine line.strip = some p' ∧
        Mirrors f' p' := by
  have listed := (h.leave hf hp).accept
  simp only [Scan.importLine]
  split
  · next bullet hb => exact .inr ⟨_, _, rfl, rfl, listed.listImport hb⟩
  · cases hb : Line.includeBullet line.strip with
    | none => exact .inl ⟨rfl, rfl⟩
    | some bullet => exact .inr ⟨_, _, rfl, rfl, listed.listInclude hb⟩

theorem Mirrors.sectionLine (h : Mirrors f p) (hn : 1 ≤ number) (hf : f.Idle) (hp : p.Idle)
    (pending : f.pending.lines = []) (line : Text) :
    (p.sectionLine line number).1 = (f.sectionLine line number).1 ∧
      Mirrors (f.sectionLine line number).2 (p.sectionLine line number).2 := by
  unfold Scan.sectionLine
  split
  · unfold sectionStart
    split
    · exact ⟨rfl, h.inSection {}⟩
    · have left := (h.endDeclaration hf.2.1 hp.2.1).inSection {}
      simp only
      split
      · exact ⟨rfl, left.inSection _⟩
      · split
        · exact ⟨rfl, left.declareLine hn hf hp pending _ _ _⟩
        · exact ⟨rfl, left⟩
  · simp only [sectionEntry, h.openSection]
    split
    · exact ⟨rfl, h⟩
    · have entered := h.inSection
        { f.openSection with indent := some (f.openSection.indent.getD line.indent) }
      split
      · exact ⟨rfl, entered.declareLine hn hf hp pending _ _ _⟩
      · exact ⟨rfl, entered⟩

theorem Mirrors.startCapture (h : Mirrors f p) (hf : f.Idle) (hp : p.Idle)
    (pending : f.pending.lines = []) (line : Text) :
    Mirrors (f.startCapture line) (p.startCapture line) := by
  have start {s : Scan} (hi : s.Idle) (hs : s.pending.lines = []) :
      Move 1 line s (s.startCapture line) := .startCapture hi hs
  refine h.move (by decide) (start hf pending) (start hp (h.pending ▸ pending))
    (capture_view h.same _) ?_
  rintro rfl
  rfl

theorem Mirrors.declarationLine (h : Mirrors f p) (hn : 1 ≤ number) (hf : f.Idle) (hp : p.Idle)
    (line : Text) : Mirrors (f.declarationLine number line) (p.declarationLine number line) := by
  unfold Scan.declarationLine
  split
  · next routine =>
    rw [h.openSection]
    exact (h.inSection { f.openSection with category := none }).startDeclaration hn hf hp routine
  · rw [h.pending]
    split
    · next hne => exact h.continueDeclaration (by simpa using hne) line
    · next hne =>
      have pending : f.pending.lines = [] := by simpa using hne
      obtain ⟨hhandled, hsection⟩ := h.sectionLine hn hf hp pending line
      simp only [hhandled]
      split
      · obtain ⟨hf1, hf2, hf3, hf4⟩ := sectionLine_frame f line number
        obtain ⟨hp1, -, hp3, hp4⟩ := sectionLine_frame p line number
        refine hsection.startCapture ?_ ?_ (hf2 ▸ pending) line
        · exact ⟨hf4 ▸ hf.1, hf1 ▸ hf.2.1, hf3 ▸ hf.2.2⟩
        · exact ⟨hp4 ▸ hp.1, hp1 ▸ hp.2.1, hp3 ▸ hp.2.2⟩
      · exact hsection

/-! ## Doc lines side by side -/

/-- Doc moves of both scans while no exported declaration is current. -/
theorem docMoves_view (h : Mirrors f p) (hn : f.focus = none)
    (hf : ReflTransGen (DocMove text) f f') (hp : ReflTransGen (DocMove text) p p') :
    p'.view = f'.view := by
  have hpn : p.focus = none := (congrArg View.focus h.same).trans hn
  rw [docMoves_quiet h.full hn hf, docMoves_quiet h.part hpn hp, h.same]

theorem Mirrors.closeFence (h : Mirrors f p) : Mirrors f.closeFence p.closeFence := by
  have close (s : Scan) : DocMove (Line.docText []) s s.closeFence := .closeFence s
  refine h.move (show (1 : Int) ≤ 1 by decide) (.doc (.inl rfl) (close f))
    (.doc (.inl rfl) (close p)) ?_ ?_
  · cases hn : f.focus with
    | none => exact docMoves_view h hn (.single (close f)) (.single (close p))
    | some x =>
      obtain ⟨bf, bp, d, hab⟩ := abreast h.full h.part h.same (by simp [hn])
      exact hab.closeFence h.full h.part
  · rintro rfl
    exact closeFence_onlyExported f

theorem Mirrors.takeDoc (h : Mirrors f p) (hf : f.Idle) (hp : p.Idle)
    (pending : f.pending.lines = []) {line : Text}
    (kept : Line.isTodo (Line.docText line) = false) :
    Mirrors (f.takeDoc (Line.docText line)) (p.takeDoc (Line.docText line)) := by
  have left := takeDoc_moves h.full hf pending kept
  have right := takeDoc_moves h.part hp (h.pending ▸ pending) kept
  refine h.moves (show (1 : Int) ≤ 1 by decide) (Moves.doc (.inl rfl) left)
    (Moves.doc (.inl rfl) right) ?_ ?_
  · cases hn : f.focus with
    | none => exact docMoves_view h hn left right
    | some x =>
      obtain ⟨bf, bp, d, hab⟩ := abreast h.full h.part h.same (by simp [hn])
      exact hab.takeDoc h.full h.part _
  · rintro rfl
    exact .inl (takeDoc_onlyExported f _)

theorem Mirrors.docLine (h : Mirrors f p) (hf : f.Idle) (hp : p.Idle) (line : Text) :
    Mirrors (f.docLine line) (p.docLine line) := by
  rw [docLine_eq, docLine_eq]
  split
  · exact h
  · next kept =>
    exact h.flushPending.takeDoc hf.flushPending hp.flushPending (by simp) (by simpa using kept)

theorem Mirrors.textLine (h : Mirrors f p) (hn : 1 ≤ number) (hf : f.Idle) (hp : p.Idle)
    (line : Text) : Mirrors (f.textLine number line) (p.textLine number line) := by
  unfold Scan.textLine
  split
  · exact h.docLine hf hp line
  · split
    · exact h.inlineDoc hn hf hp _ _
    · rcases h.importLine hf hp line with ⟨hl, hr⟩ | ⟨f', p', hl, hr, h'⟩ <;> rw [hl, hr]
      · exact h.declarationLine hn hf hp line
      · exact h'

theorem Mirrors.bodyLine (h : Mirrors f p) (hn : 1 ≤ number) (hf : f.Idle) (hp : p.Idle)
    (line : Text) : Mirrors (f.bodyLine number line) (p.bodyLine number line) := by
  rw [bodyLine_eq, bodyLine_eq]
  split
  · exact h.leave hf hp
  · unfold atMargin
    split
    · exact h.accept.textLine hn hf hp line
    · exact h.textLine hn hf hp line

theorem fencedLine_of_closed (h : s.fence.isOpen = false) : s.fencedLine line = .ok (false, s) := by
  simp [fencedLine, h]

theorem fencedLine_of_code (h : Line.isDoc line = false) :
    s.fencedLine line = .ok (false, s.closeFence) := by
  cases ho : s.fence.isOpen with
  | false => rw [fencedLine_of_closed ho, closeFence_of_closed ho]
  | true => simp [fencedLine, h, ho]

/-- What is left of the line when the code block is closed is read in both scans. -/
theorem Mirrors.unfenced (h : Mirrors f' p') (hn : 1 ≤ number) (hf : f'.Idle) (hp : p'.Idle)
    (hfl : f.fencedLine line = .ok (false, f')) (hpl : p.fencedLine line = .ok (false, p')) :
    ∃ f' p', f.plainLine number line = .ok f' ∧ p.plainLine number line = .ok p' ∧ Mirrors f' p' :=
  ⟨_, _, plainLine_of_refused hfl, plainLine_of_refused hpl, h.bodyLine hn hf hp line⟩

theorem fencedLine_of_fed {taken : Bool} (hs : s.Sound) (ho : s.fence.isOpen = true)
    (doc : Line.isDoc line = true) (h : s.feedFence (Line.docText line) = .ok (taken, s')) :
    s.fencedLine line = .ok (taken, s') := by
  obtain ⟨_, _, he, -, hc⟩ := feedFence_moves hs ho (Line.docText line)
  obtain ⟨rfl, rfl⟩ := Prod.mk.inj (Except.ok.inj (h.symm.trans he))
  simp only [fencedLine, ho, doc, h, if_true]
  cases taken with
  | true => rfl
  | false => exact congrArg (fun t => Except.ok (false, t)) (closeFence_of_closed (hc rfl))

theorem bodyLine_quiet (hs : s.Sound) (idle : s.Idle) (hn : s.focus = none)
    (pending : s.pending.lines = []) (doc : Line.isDoc line = true) (number : Int) :
    (s.bodyLine number line).view = s.view := by
  have flushed {t : Scan} (h : t.pending.lines = []) : t.flushPending = t := by
    simp [flushPending, h]
  have text {t : Scan} (ht : t.Sound) (idle : t.Idle) (pending : t.pending.lines = [])
      (hn : t.focus = none) : (t.textLine number line).view = t.view := by
    rw [textLine, if_pos doc, docLine_eq]
    split
    · rfl
    · next kept =>
      rw [flushed pending]
      exact docMoves_quiet ht hn (takeDoc_moves ht idle pending (by simpa using kept))
  rw [bodyLine_eq]
  split
  · rw [flushed pending]
    exact View.ext rfl rfl rfl rfl rfl rfl rfl hn.symm
  · unfold atMargin
    split
    · exact text hs.accept idle pending hn
    · exact text hs idle pending hn

/-- While no exported declaration is current and no signature is open, a doc line does not
change the view. -/
theorem plainLine_quiet (hs : s.Sound) (hr : s.Reading) (hn : s.focus = none)
    (pending : s.pending.lines = []) (doc : Line.isDoc line = true) (number : Int) :
    ∃ s', s.plainLine number line = .ok s' ∧ Moves number line s s' ∧ s'.view = s.view := by
  obtain ⟨taken, s1, he, hm, idle⟩ := fencedLine_reading hs hr line
  have hs1 := docMoves_sound hs hm
  have hv := docMoves_quiet hs hn hm
  cases taken with
  | true => exact ⟨s1, plainLine_of_taken he, Moves.doc (.inl rfl) hm, hv⟩
  | false =>
    have pending1 : s1.pending.lines = [] := (docMoves_frame hs hm).1 ▸ pending
    have hn1 : s1.focus = none := (congrArg View.focus hv).trans hn
    refine ⟨_, plainLine_of_refused he,
      (Moves.doc (.inl rfl) hm).trans (bodyLine_moves hs1 (idle rfl)), ?_⟩
    exact (bodyLine_quiet hs1 (idle rfl) hn1 pending1 doc number).trans hv

/-- A code block in the comment of the same declaration. -/
theorem Abreast.fencedLine {bf bp : List Declaration} (h : Abreast f p bf bp d) (hf : f.Sound)
    (hp : p.Sound) (doc : Line.isDoc line = true) :
    ∃ taken f' p', f.fencedLine line = .ok (taken, f') ∧ p.fencedLine line = .ok (taken, p') ∧
      p'.view = f'.view := by
  have hopen : p.fence.isOpen = f.fence.isOpen := by rw [h.fence]
  cases ho : f.fence.isOpen with
  | false =>
    exact ⟨false, f, p, fencedLine_of_closed ho, fencedLine_of_closed (hopen.trans ho), h.same⟩
  | true =>
    obtain ⟨taken, f', p', hef, hep, hv⟩ := h.feedFence hf hp ho (Line.docText line)
    exact ⟨taken, f', p', fencedLine_of_fed hf ho doc hef,
      fencedLine_of_fed hp (hopen.trans ho) doc hep, hv⟩

theorem Mirrors.plainLine (h : Mirrors f p) (hn : 1 ≤ number) (hf : f.Reading) (hp : p.Reading)
    (line : Text) :
    ∃ f' p', f.plainLine number line = .ok f' ∧ p.plainLine number line = .ok p' ∧
      Mirrors f' p' := by
  obtain ⟨taken, f1, hef, hmf, hif⟩ := fencedLine_reading h.full hf line
  obtain ⟨taken', p1, hep, hmp, hip⟩ := fencedLine_reading h.part hp line
  have movesf : Moves number line f f1 := Moves.doc (.inl rfl) hmf
  have movesp : Moves number line p p1 := Moves.doc (.inl rfl) hmp
  have both (ht : taken' = taken) (h1 : Mirrors f1 p1) : ∃ f' p', f.plainLine number line = .ok f' ∧
      p.plainLine number line = .ok p' ∧ Mirrors f' p' := by
    subst ht
    cases taken' with
    | true => exact ⟨f1, p1, plainLine_of_taken hef, plainLine_of_taken hep, h1⟩
    | false => exact h1.unfenced hn (hif rfl) (hip rfl) hef hep
  rcases h.together with rfl | ha
  · have he := Except.ok.inj (hep.symm.trans (fencedLine_onlyExported hef))
    obtain ⟨ht, rfl⟩ := Prod.mk.inj he
    exact both ht (h.alike hn movesf movesp rfl)
  · cases doc : Line.isDoc line with
    | false =>
      have close {s s' : Scan} {taken : Bool} (h : s.fencedLine line = .ok (taken, s')) :
          taken = false ∧ s' = s.closeFence :=
        Prod.mk.inj (Except.ok.inj (h.symm.trans (fencedLine_of_code doc)))
      obtain ⟨rfl, rfl⟩ := close hef
      obtain ⟨rfl, rfl⟩ := close hep
      exact both rfl h.closeFence
    | true =>
      cases hfocus : f.focus with
      | some x =>
        obtain ⟨bf, bp, d, hab⟩ := abreast h.full h.part h.same (by simp [hfocus])
        obtain ⟨_, _, _, hl, hr, hv⟩ := hab.fencedLine h.full h.part doc
        obtain ⟨rfl, rfl⟩ := Prod.mk.inj (Except.ok.inj (hef.symm.trans hl))
        obtain ⟨rfl, rfl⟩ := Prod.mk.inj (Except.ok.inj (hep.symm.trans hr))
        exact both rfl (h.apart ha hn movesf movesp hv)
      | none =>
        -- A block may be open in one scan only, which then takes the line; both are quiet.
        by_cases pending : f.pending.lines = []
        · have hpn : p.focus = none := (congrArg View.focus h.same).trans hfocus
          obtain ⟨f', hlf, hmf, hvf⟩ := plainLine_quiet h.full hf hfocus pending doc number
          obtain ⟨p', hlp, hmp, hvp⟩ :=
            plainLine_quiet h.part hp hpn (h.pending ▸ pending) doc number
          exact ⟨f', p', hlf, hlp, h.apart ha hn hmf hmp (by rw [hvf, hvp, h.same])⟩
        -- The line ends a signature, so that an exported declaration may be current behind it.
        · have hif := h.full.idle_of_pending pending
          have hip := h.part.idle_of_pending (h.pending ▸ pending)
          exact h.unfenced hn hif hip (fencedLine_of_closed hif.2.1) (fencedLine_of_closed hip.2.1)

/-! ## Whole sources side by side -/

theorem Mirrors.captured (h : Mirrors f p) (hn : 1 ≤ number) (line : Text) :
    (p.captured line).1 = (f.captured line).1 ∧
      Mirrors (f.captured line).2 (p.captured line).2 := by
  obtain ⟨hflag, hview⟩ := captured_view h.full h.part h.same line
  refine ⟨hflag, h.moves hn (captured_moves h.full number line).1
    (captured_moves h.part number line).1 hview ?_⟩
  rintro rfl
  rw [captured_onlyExported]
  exact .inl rfl

theorem Mirrors.codeLine (h : Mirrors f p) (hn : 1 ≤ number) (hf : f.inCode = true)
    (hp : p.inCode = true) (line : Text) :
    ∃ f' p', f.codeLine number line = .ok f' ∧ p.codeLine number line = .ok p' ∧ Mirrors f' p' := by
  obtain ⟨hflag, h1⟩ := h.captured hn line
  rw [codeLine_eq, codeLine_eq, hflag]
  split
  · exact ⟨_, _, rfl, rfl, h1⟩
  · next hc =>
    have refused : (f.captured line).1 = false := by simpa using hc
    exact h1.plainLine hn (captured_reading hf refused)
      (captured_reading hp (hflag.trans refused)) line

/-- Before the code both scans are in the same state. -/
theorem Mirrors.eq_of_top (h : Mirrors f p) (top : f.inCode = false) : p = f.onlyExported := by
  rcases h.together with he | ha
  · exact he
  · have := h.full.inCode_of_declared ha.declared
    simp [top] at this

theorem Mirrors.inCode (h : Mirrors f p) : p.inCode = f.inCode := by
  rcases h.together with rfl | ha
  · rfl
  · rw [ha.inCode, h.full.inCode_of_declared ha.declared]

theorem Mirrors.topLine (h : Mirrors f p) (hn : 1 ≤ number) (top : f.inCode = false) (line : Text) :
    ∃ taken f' p', f.takeTop line = .ok (taken, f') ∧ p.takeTop line = .ok (taken, p') ∧
      Mirrors f' p' := by
  obtain rfl := h.eq_of_top top
  obtain ⟨taken, f', he, hm⟩ := takeTop_moves h.full top number line
  obtain ⟨taken', p', he', hm'⟩ := takeTop_moves h.part top number line
  have heq := takeTop_onlyExported he
  obtain ⟨rfl, rfl⟩ := Prod.mk.inj (Except.ok.inj (he'.symm.trans heq))
  exact ⟨taken', f', f'.onlyExported, he, heq, h.alike hn hm hm' rfl⟩

/-- **A line keeps two scans side by side.** -/
theorem Mirrors.step (h : Mirrors f p) (hn : 1 ≤ number) (line : Text) :
    ∃ f' p', f.line number line = .ok f' ∧ p.line number line = .ok p' ∧ Mirrors f' p' := by
  unfold Scan.line
  split
  · exact ⟨f, p, rfl, rfl, h⟩
  · rw [h.inCode]
    split
    · next hi => exact h.codeLine hn hi (h.inCode.trans hi) line
    · next hi =>
      have top : f.inCode = false := by simpa using hi
      obtain ⟨taken, f1, p1, hf, hp, h1⟩ := h.topLine hn top line
      rw [hf, hp]
      cases taken with
      | true => exact ⟨f1, p1, rfl, rfl, h1⟩
      | false =>
        have top1 : f1.inCode = false := by rw [takeTop_refused hf]; exact top
        have enterf := enterCode_moves h1.full top1 number line
        have enterp := enterCode_moves h1.part (h1.inCode.trans top1) number line
        have entered := h1.alike hn enterf enterp (by
          rw [h1.eq_of_top top1, enterCode_onlyExported])
        exact entered.codeLine hn rfl rfl line

theorem Mirrors.run (h : Mirrors f p) {n : Nat} (hn : 1 ≤ n) (ls : List Text) :
    ∃ f' p', f.lines n ls = .ok f' ∧ p.lines n ls = .ok p' ∧ Mirrors f' p' := by
  induction ls generalizing f p n with
  | nil => exact ⟨f, p, rfl, rfl, h⟩
  | cons line rest ih =>
    obtain ⟨f1, p1, hf, hp, h1⟩ := h.step (by omega : (1 : Int) ≤ n) line
    obtain ⟨f2, p2, hf2, hp2, h2⟩ := ih h1 (Nat.le_succ_of_le hn)
    exact ⟨f2, p2, by simp only [Scan.lines, hf, hf2], by simp only [Scan.lines, hp, hp2], h2⟩

theorem Mirrors.finish (h : Mirrors f p) : Mirrors f.finish p.finish := by
  have ended {f p : Scan} (h : Mirrors f p) :
      Mirrors f.closeFence.flushPending.endDeclaration
        p.closeFence.flushPending.endDeclaration := by
    refine h.closeFence.flushPending.endDeclaration ?_ ?_
    · simpa using closeFence_isOpen h.full
    · simpa using closeFence_isOpen h.part
  simp only [Scan.finish, h.inCode]
  split
  · exact ended h
  · next hi =>
    have top : f.inCode = false := by simpa using hi
    have commit {s : Scan} (hs : s.inCode = false) : Moves 1 [] s s.commitHeld :=
      .single (.commitHeld hs)
    refine ended (h.alike (by decide) (commit top) (commit (h.inCode.trans top)) ?_)
    rw [h.eq_of_top top, commitHeld_onlyExported]

theorem fresh_mirrors : Mirrors (fresh false) (fresh true) :=
  ⟨fresh_sound false, fresh_sound true, rfl, rfl, .inl rfl⟩

/-- What two outlines side by side have in common. -/
theorem Mirrors.outline (h : Mirrors f p) :
    (∀ c, (p.outline.ofCategory c).filter (·.heading.isSome) =
      (f.outline.ofCategory c).filter fun d => d.heading.isSome && d.isExported) ∧
    p.outline.imports = f.outline.imports ∧ p.outline.includes = f.outline.includes ∧
    f.outline.topMatter <+: p.outline.topMatter := by
  refine ⟨fun c => ?_, congrArg View.imports h.same, congrArg View.includes h.same, ?_⟩
  · have hshown : p.outline.shown = f.outline.shown := congrArg View.shown h.same
    have byCategory (o : Outline) : (o.ofCategory c).filter Declaration.isShown =
        o.shown.filter (·.category == c) := by
      simp only [Outline.ofCategory, Outline.shown, List.filter_filter, Bool.and_comm]
    calc (p.outline.ofCategory c).filter (·.heading.isSome)
        = (p.outline.ofCategory c).filter Declaration.isShown := by
          refine List.filter_congr fun d hd => ?_
          have := h.part.exported h.filtered d (List.mem_filter.1 hd).1
          simp [Declaration.isShown, this]
      _ = p.outline.shown.filter (·.category == c) := byCategory _
      _ = f.outline.shown.filter (·.category == c) := by rw [hshown]
      _ = (f.outline.ofCategory c).filter Declaration.isShown := (byCategory _).symm
  · rcases h.together with rfl | ha
    · exact List.prefix_rfl
    · obtain ⟨rest, hr, -⟩ := ha.top
      exact ⟨rest, hr.symm⟩

end Scan

namespace Source

theorem scan_mirrors {all only : Options} (hall : all.on .exportedOnly = false)
    (honly : only.on .exportedOnly = true) (content : Text) :
    ∃ f p, scan all content = .ok f ∧ scan only content = .ok p ∧ Scan.Mirrors f p := by
  obtain ⟨f, p, hf, hp, h⟩ := Scan.fresh_mirrors.run (Nat.le_refl 1) (Scan.sourceLines content)
  refine ⟨f.finish, p.finish, ?_, ?_, h.finish⟩
  · simp only [scan, Scan.source, hall, hf]
    rfl
  · simp only [scan, Scan.source, honly, hp]
    rfl

/-- **Leaving out is filtering.** Of two outlines of one source, where the second is to leave
out what is not exported, the declarations with a heading of the second are those of the first
that are exported, category by category and with all their texts. Imports and includes are the
same, and the top matter of the first begins that of the second, which may go on with narratives
that stood behind declarations. -/
theorem outline_exportedOnly {all only : Settings} {o p : Options} (hall : all.validate = .ok o)
    (honly : only.validate = .ok p) (ho : o.on .exportedOnly = false)
    (hp : p.on .exportedOnly = true) (content : Text) :
    ∃ full part, outline all content = .ok full ∧ outline only content = .ok part ∧
      (∀ c, (part.ofCategory c).filter (·.heading.isSome) =
        (full.ofCategory c).filter fun d => d.heading.isSome && d.isExported) ∧
      part.imports = full.imports ∧ part.includes = full.includes ∧
      full.topMatter <+: part.topMatter := by
  obtain ⟨f, p, hf, hp, h⟩ := scan_mirrors ho hp content
  obtain ⟨f', hf', hfull⟩ := outline_of_valid hall content
  obtain ⟨p', hp', hpart⟩ := outline_of_valid honly content
  obtain rfl := Except.ok.inj (hf'.symm.trans hf)
  obtain rfl := Except.ok.inj (hp'.symm.trans hp)
  exact ⟨_, _, hfull, hpart, h.outline⟩

/-- A source with a narrative behind a declaration that is not exported, and with an exported
one behind that. -/
def hiddenFirst : Text :=
  ("## Tool\nproc hide() =\n  ## Hidden\n\n## Between\n## -------\nproc run*() =\n" ++
    "  ## Runs\n  runnableExamples:\n    run()\n").toList

theorem outline_exportedOnly_hiddenFirst :
    let only := Settings.byDefault.set (.toggle .exportedOnly) (.bool true)
    Settings.byDefault.validate = .ok Settings.byDefault.toOptions ∧
      only.validate = .ok only.toOptions ∧
      Settings.byDefault.toOptions.on .exportedOnly = false ∧
      only.toOptions.on .exportedOnly = true ∧
      ∃ full part, outline .byDefault hiddenFirst = .ok full ∧ outline only hiddenFirst = .ok part ∧
        (∀ c, (part.ofCategory c).filter (·.heading.isSome) =
          (full.ofCategory c).filter fun d => d.heading.isSome && d.isExported) ∧
        part.imports = full.imports ∧ part.includes = full.includes ∧
        full.topMatter <+: part.topMatter :=
  ⟨rfl, rfl, rfl, rfl, outline_exportedOnly rfl rfl rfl rfl hiddenFirst⟩

end Source

end NimMarkdown
