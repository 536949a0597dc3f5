import NimMarkdown.Proofs.Ledger
import NimMarkdown.Proofs.Names

/-!
# How a line is read

`Booked` lists what a line can do to the ledger of a scan: nothing, end the
signature, begin or extend one, or declare an element of its own. Each case says
for which lines it arises, so that the line is read in one way only; `line_reads`
shows that every line is read in one of these ways, and `lines_read` is the
induction over a run: what every reading keeps holds at its end.
-/

namespace NimMarkdown

/-! ## Lines that open no routine -/

namespace Line

variable {line code doc : Text} {kind : Routine}

theorem routine?_of_mark (h : '#' ∈ line) : routine? line = none := by
  simp [routine?, h]

theorem routine?_of_isDoc (h : isDoc line = true) : routine? line = none :=
  routine?_of_mark (mark_mem_of_isDoc h)

theorem cutAt_of_splitInlineDoc (h : splitInlineDoc line = some (code, doc)) :
    ∃ before after, Text.cutAt docMarker line = some (before, after) ∧
      code = before.stripRight := by
  unfold splitInlineDoc at h
  split at h
  · cases h
  · next before after hc =>
    split at h
    · cases h
    · cases h
      exact ⟨before, after, hc, rfl⟩

/-- A line that is neither a doc comment nor has one beside its code has no marker. -/
theorem cutAt_of_bare (hd : isDoc line = false) (hs : splitInlineDoc line = none) :
    Text.cutAt docMarker line = none := by
  cases hc : Text.cutAt docMarker line with
  | none => rfl
  | some ends =>
    obtain ⟨before, after⟩ := ends
    simp only [splitInlineDoc, hc] at hs
    split at hs
    · next hb =>
      have doc : isDoc line = true := by
        rw [isDoc, Text.cutAt_eq hc, List.append_assoc, Text.stripLeft_append hb]
        rfl
      rw [doc] at hd
      cases hd
    · cases hs

theorem routine?_of_blank (h : line.isBlankText = true) : routine? line = none := by
  simp [routine?, leadingWord, Text.stripLeft_of_blank h]

theorem routine?_of_guard (h : isMainGuard line = true) : routine? line = none := by
  rw [← routine?_trim.strip, beq_iff_eq.1 h]
  decide

/-- The line that opens a routine has no comment and begins with a keyword. -/
theorem keyword_of_routine? (h : routine? line = some kind) : '#' ∉ line ∧
    ∃ word, leadingWord line = some word ∧ routineKeywords.lookup word = some kind := by
  unfold routine? at h
  split at h
  · cases h
  · next hm =>
    obtain ⟨word, hw, hk⟩ := Option.bind_eq_some_iff.1 h
    exact ⟨by simpa using hm, word, hw, hk⟩

theorem leadingWord_withoutComment (h : '#' ∉ line) :
    leadingWord (withoutComment line.strip) = leadingWord line := by
  have unmarked : '#' ∉ line.strip := fun hm => h ((Text.strip_part line).subset hm)
  rw [withoutComment, Text.takeWhile_of_not_mem unmarked, leadingWord_trim.stripRight,
    leadingWord_trim.strip]

/-- A line that begins with another word imports and includes nothing. -/
theorem bullets_of_leadingWord {word : Text} (hm : '#' ∉ line) (hw : leadingWord line = some word)
    (other : word ∉ ["import".toList, "from".toList, "include".toList]) :
    importBullet line.strip = none ∧ includeBullet line.strip = none := by
  simp only [List.mem_cons, List.not_mem_nil, or_false, not_or] at other
  obtain ⟨h1, h2, h3⟩ := other
  unfold importBullet includeBullet
  simp only [leadingWord_withoutComment hm, hw, Option.some_beq_some]
  refine ⟨?_, ?_⟩
  · rw [if_neg (by simpa using h1), if_neg (by simpa using h2)]
  · rw [if_neg (by simpa using h3)]

/-- A routine does not import anything. -/
theorem bullets_of_routine? (h : routine? line = some kind) :
    importBullet line.strip = none ∧ includeBullet line.strip = none := by
  obtain ⟨hm, word, hw, hk⟩ := keyword_of_routine? h
  refine bullets_of_leadingWord hm hw fun imports => ?_
  have noRoutine : ∀ w ∈ ["import".toList, "from".toList, "include".toList],
      routineKeywords.lookup w = none := by decide
  rw [noRoutine word imports] at hk
  cases hk

/-- A routine begins with a letter. -/
theorem letter_of_routine? (h : routine? line = some kind) :
    ∃ c rest, line.strip = c :: rest ∧ isAsciiLetter c = true := by
  obtain ⟨-, word, hw, hk⟩ := keyword_of_routine? h
  obtain ⟨n, rest, rfl, hs, -⟩ := leadingWord_eq_some_iff.1 hw
  have initial : ∀ entry ∈ routineKeywords, entry.1.head?.any isAsciiLetter = true := by decide
  have solid : isBlank n.first = false := isBlank_of_isWord (isWord_of_isNameStart n.first_starts)
  refine ⟨n.first, Text.stripRight (n.rest ++ rest), ?_, initial _ (mem_of_lookup hk)⟩
  rw [Text.strip, hs, Word.text, List.cons_append, Text.stripRight, dropEndWhile_cons, solid,
    Bool.and_false]
  rfl

theorem sections_of_sectionStart? {category : Category} {rest : Text}
    (h : sectionStart? line = some (category, rest)) : category ∈ Category.sections := by
  obtain ⟨word, -, h⟩ := Option.bind_eq_some_iff.1 h
  obtain ⟨c, hc, h⟩ := Option.map_eq_some_iff.1 h
  cases h
  have listed : ∀ entry ∈ sectionKeywords, entry.2 ∈ Category.sections := by decide
  exact listed (word, category) (mem_of_lookup hc)

end Line

/-! ## How a line is read -/

namespace Scan

open Relation

variable {s s' s1 : Scan} {text line code doc : Text} {number : Int} {category : Category}

/-- What a line does to the ledger, and when. -/
inductive Booked (number : Int) (line : Text) (s s' : Scan) : Prop where
  | keep (inert : Line.routine? line = none ∨ s.capture.active = true)
      (ledger : s'.ledger = s.ledger)
  | flush (inert : Line.routine? line = none) (ledger : s'.ledger = s.ledger.flush)
  | start (routine : (Line.routine? line).isSome = true)
      (ledger : s'.ledger = s.ledger.start line number)
  | extend (inert : Line.routine? line = none) (pending : s.pending.lines ≠ [])
      (ledger : s'.ledger = s.ledger.extend line)
  | inline {code doc : Text} (beside : Line.splitInlineDoc line = some (code, doc))
      (ledger : s'.ledger =
        s.ledger.clear.register (lineDeclaration code doc number (s.lineCategory code)))
  | entry {category : Category} (inert : Line.routine? line = none)
      (bare : Text.cutAt Line.docMarker line = none) (pending : s.pending.lines = [])
      (filed : s.openSection.category = some category ∨
        ∃ rest, Line.sectionStart? line.strip = some (category, rest))
      (ledger : s'.ledger = s.ledger.register (lineDeclaration line.strip [] number category))

/-- How a line is read: what it does to the ledger, and what it may open. -/
structure Reads (number : Int) (line : Text) (s s' : Scan) : Prop where
  booked : Booked number line s s'
  sections : ∀ c, s'.openSection.category = some c → s.openSection.category = some c ∨
    ∃ rest, Line.sectionStart? line.strip = some (c, rest)
  capture : s'.capture.active = true →
    s.capture.active = true ∨ Line.opensExamples line.strip = true

theorem Keeps.lineCategory (h : Keeps s s1) (code : Text) :
    s1.lineCategory code = s.lineCategory code := by
  simp only [Scan.lineCategory, h.openSection]

theorem Keeps.reads (h : Keeps s s') (inert : Line.routine? line = none ∨ s.capture.active = true) :
    Reads number line s s' where
  booked := .keep inert h.ledger
  sections _ hc := .inl (h.openSection ▸ hc)
  capture ha := .inl (h.capture ha)

/-- A line may be read behind changes that do not touch the ledger. -/
theorem Reads.after (hr : Reads number line s1 s') (h : Keeps s s1) : Reads number line s s' where
  booked := by
    have hp : s1.pending = s.pending := congrArg Ledger.pending h.ledger
    cases hr.booked with
    | keep inert hl => exact .keep (inert.imp_right h.capture) (hl.trans h.ledger)
    | flush inert hl => exact .flush inert (h.ledger ▸ hl)
    | start routine hl => exact .start routine (h.ledger ▸ hl)
    | extend inert pending hl => exact .extend inert (hp ▸ pending) (h.ledger ▸ hl)
    | inline beside hl => exact .inline beside (h.lineCategory _ ▸ h.ledger ▸ hl)
    | entry inert bare pending filed hl =>
      exact .entry inert bare (hp ▸ pending) (h.openSection ▸ filed) (h.ledger ▸ hl)
  sections c hc := h.openSection ▸ hr.sections c hc
  capture ha := (hr.capture ha).imp_left h.capture

theorem flushPending_reads (inert : Line.routine? line = none) :
    Reads number line s s.flushPending where
  booked := .flush inert (flushPending_ledger s)
  sections c hc := .inl (flushPending_openSection s ▸ hc)
  capture ha := .inl (by simpa using ha)

theorem Booked.congr (h : Booked number line s s1) (hl : s'.ledger = s1.ledger) :
    Booked number line s s' := by
  cases h with
  | keep inert h => exact .keep inert (hl.trans h)
  | flush inert h => exact .flush inert (hl.trans h)
  | start routine h => exact .start routine (hl.trans h)
  | extend inert pending h => exact .extend inert pending (hl.trans h)
  | inline beside h => exact .inline beside (hl.trans h)
  | entry inert bare pending filed h => exact .entry inert bare pending filed (hl.trans h)

/-- Changes behind the line that do not touch the ledger. -/
theorem Reads.before (h : Reads number line s s1) (hk : Keeps s1 s') : Reads number line s s' where
  booked := h.booked.congr hk.ledger
  sections c hc := h.sections c (hk.openSection ▸ hc)
  capture ha := h.capture (hk.capture ha)

theorem endDeclaration_keeps (s : Scan) : Keeps s s.endDeclaration := ⟨rfl, rfl, id⟩

theorem docLine_reads (hs : s.Sound) (idle : s.Idle) (hd : Line.isDoc line = true) :
    Reads number line s (s.docLine line) := by
  have inert := Line.routine?_of_isDoc hd
  rw [docLine_eq]
  split
  · exact (Keeps.refl s).reads (.inl inert)
  · next kept =>
    have docs := takeDoc_moves hs.flushPending idle.flushPending (by simp) (by simpa using kept)
    exact (flushPending_reads inert).before (docMoves_keep hs.flushPending docs)

theorem dropPending_capture (s : Scan) (number : Int) :
    (s.dropPending number).capture = s.capture := by
  unfold dropPending
  split <;> rfl

theorem inlineDoc_reads (beside : Line.splitInlineDoc line = some (code, doc)) :
    Reads number line s (s.inlineDoc code doc number) := by
  have hl : ((s.dropPending number).inSection (s.inlineSection code)).ledger = s.ledger.clear :=
    dropPending_ledger s number
  rw [inlineDoc_eq]
  obtain ⟨ho, hc⟩ := declareLine_frame ((s.dropPending number).inSection (s.inlineSection code))
    code doc number (s.lineCategory code)
  refine ⟨.inline beside ?_, fun c h => .inl ?_, fun h => .inl ?_⟩
  · rw [declareLine_ledger, hl]
  · rw [ho] at h
    simp only [inSection, inlineSection] at h
    split at h
    · cases h
    · split at h <;> exact h
  · rw [hc] at h
    rwa [← dropPending_capture s number]

theorem importLine_reads (h : s.importLine line.strip = some s') : Reads number line s s' := by
  have inert : Line.routine? line = none := by
    cases hr : Line.routine? line with
    | none => rfl
    | some kind =>
      obtain ⟨h1, h2⟩ := Line.bullets_of_routine? hr
      simp [importLine, h1, h2] at h
  have listed (o : Outline) (ho : o.heads = s.flushPending.outline.heads) : Reads number line s
      { s.flushPending.endDeclaration with admitting := true, outline := o } :=
    (flushPending_reads inert).before (.of_heads ⟨rfl, rfl⟩ ho rfl id)
  unfold importLine at h
  split at h
  · exact Option.some.inj h ▸ listed _ rfl
  · obtain ⟨bullet, -, h⟩ := Option.map_eq_some_iff.1 h
    exact h ▸ listed _ rfl

/-- A line that declares an element of a section, which may have changed before. -/
theorem entry_reads (inert : Line.routine? line = none)
    (bare : Text.cutAt Line.docMarker line = none) (pending : s.pending.lines = [])
    (filed : s.openSection.category = some category ∨
      ∃ rest, Line.sectionStart? line.strip = some (category, rest)) {o : OpenSection}
    (ho : ∀ c, o.category = some c → s.openSection.category = some c) :
    Reads number line s ((s.inSection o).declareLine line.strip [] number category) := by
  obtain ⟨hopen, hcapture⟩ := declareLine_frame (s.inSection o) line.strip [] number category
  refine ⟨.entry inert bare pending filed (declareLine_ledger _ _ _ _ _), fun c hc => ?_, ?_⟩
  · rw [hopen] at hc
    exact .inl (ho c hc)
  · intro ha
    rw [hcapture] at ha
    exact .inl ha

theorem sectionStart_reads (inert : Line.routine? line = none)
    (bare : Text.cutAt Line.docMarker line = none) (pending : s.pending.lines = []) :
    Reads number line s (s.sectionStart line.strip number).2 := by
  unfold sectionStart
  split
  · exact ⟨.keep (.inl inert) rfl, nofun, .inl⟩
  · next category rest hk =>
    simp only
    split
    · refine ⟨.keep (.inl inert) rfl, fun c hc => .inr ⟨rest, ?_⟩, .inl⟩
      cases hc
      exact hk
    · split
      · exact (entry_reads (s := s.endDeclaration) (o := {}) inert bare pending (.inr ⟨rest, hk⟩)
          nofun).after (endDeclaration_keeps s)
      · exact ⟨.keep (.inl inert) rfl, nofun, .inl⟩

theorem sectionEntry_reads (inert : Line.routine? line = none)
    (bare : Text.cutAt Line.docMarker line = none) (pending : s.pending.lines = []) (indent : Nat) :
    Reads number line s (s.sectionEntry line.strip indent number).2 := by
  unfold sectionEntry
  split
  · exact (Keeps.refl s).reads (.inl inert)
  · next category hk =>
    simp only
    split
    · exact entry_reads
        (o := { s.openSection with indent := some (s.openSection.indent.getD indent) })
        inert bare pending (.inl hk) fun _ => id
    · exact ⟨.keep (.inl inert) rfl, fun _ => .inl, .inl⟩

theorem sectionLine_reads (inert : Line.routine? line = none)
    (bare : Text.cutAt Line.docMarker line = none) (pending : s.pending.lines = []) :
    Reads number line s (s.sectionLine line number).2 := by
  unfold sectionLine
  split
  · exact sectionStart_reads inert bare pending
  · exact sectionEntry_reads inert bare pending line.indent

theorem startDeclaration_reads (routine : (Line.routine? line).isSome = true) {o : OpenSection}
    (ho : o.category = none) :
    Reads number line s ((s.inSection o).startDeclaration line number) := by
  obtain ⟨hopen, hcapture⟩ := startDeclaration_frame (s.inSection o) line number
  refine ⟨.start routine (startDeclaration_ledger (s.inSection o) line number), ?_, ?_⟩
  · intro c hc
    rw [hopen, show (s.inSection o).openSection = o from rfl, ho] at hc
    cases hc
  · intro ha
    rw [hcapture] at ha
    exact .inl ha

theorem continueDeclaration_reads (inert : Line.routine? line = none)
    (pending : s.pending.lines ≠ []) : Reads number line s (s.continueDeclaration line) := by
  obtain ⟨hopen, hcapture⟩ := continueDeclaration_frame s line
  refine ⟨.extend inert pending (continueDeclaration_ledger s line), ?_, ?_⟩
  · intro c hc
    rw [hopen] at hc
    exact .inl hc
  · intro ha
    rw [hcapture] at ha
    exact .inl ha

theorem declarationLine_reads (bare : Text.cutAt Line.docMarker line = none) :
    Reads number line s (s.declarationLine number line) := by
  unfold declarationLine
  split
  · next routine => exact startDeclaration_reads routine rfl
  · next hr =>
    have inert : Line.routine? line = none := by simpa using hr
    split
    · next hp => exact continueDeclaration_reads inert (by simpa using hp)
    · next hp =>
      have empty : s.pending.lines = [] := by simpa using hp
      have read : Reads number line s (s.sectionLine line number).2 :=
        sectionLine_reads inert bare empty
      simp only
      split
      · next hx =>
        simp only [Bool.and_eq_true] at hx
        exact ⟨read.booked.congr rfl, read.sections, fun _ => .inr hx.2⟩
      · exact read

theorem textLine_reads (hs : s.Sound) (idle : s.Idle) :
    Reads number line s (s.textLine number line) := by
  unfold textLine
  split
  · next hd => exact docLine_reads hs idle hd
  · next hd =>
    split
    · next hi => exact inlineDoc_reads hi
    · next hi =>
      split
      · next hm => exact importLine_reads hm
      · exact declarationLine_reads (Line.cutAt_of_bare (by simpa using hd) hi)

theorem bodyLine_reads (hs : s.Sound) (idle : s.Idle) :
    Reads number line s (s.bodyLine number line) := by
  rw [bodyLine_eq]
  split
  · next hb =>
    exact (flushPending_reads (Line.routine?_of_blank hb)).before (endDeclaration_keeps _)
  · unfold atMargin
    split
    · exact (textLine_reads hs.accept idle).after ⟨rfl, rfl, id⟩
    · exact textLine_reads hs idle

/-- Only doc lines are taken by a code block. -/
theorem isDoc_of_fencedLine (h : s.fencedLine line = .ok (true, s')) : Line.isDoc line = true := by
  unfold fencedLine at h
  split at h
  · split at h
    · next hd => exact hd
    · cases h
  · cases h

theorem plainLine_reads (hs : s.Sound) (hr : s.Reading) (number : Int) (line : Text) :
    ∃ s', s.plainLine number line = .ok s' ∧ Reads number line s s' := by
  obtain ⟨taken, s1, he, hd, idle⟩ := fencedLine_reading hs hr line
  have kept := docMoves_keep hs hd
  cases taken with
  | true =>
    exact ⟨s1, plainLine_of_taken he,
      kept.reads (.inl (Line.routine?_of_isDoc (isDoc_of_fencedLine he)))⟩
  | false =>
    exact ⟨_, plainLine_of_refused he,
      (bodyLine_reads (docMoves_sound hs hd) (idle rfl)).after kept⟩

theorem codeLine_reads (hs : s.Sound) (inCode : s.inCode = true) (number : Int) (line : Text) :
    ∃ s', s.codeLine number line = .ok s' ∧ Reads number line s s' := by
  have kept := captured_keeps s line
  rw [codeLine_eq]
  split
  · next hc =>
    have active : s.capture.active = true := by
      unfold captured at hc
      split at hc
      · assumption
      · cases hc
    exact ⟨_, rfl, kept.reads (.inr active)⟩
  · next hc =>
    have reading := captured_reading inCode (by simpa using hc)
    obtain ⟨s2, he, hr⟩ := plainLine_reads (captured_moves hs number line).2 reading number line
    exact ⟨s2, he, hr.after kept⟩

theorem routine?_of_topDoc (h : s.topDoc line = .ok (true, s')) : Line.routine? line = none := by
  unfold topDoc at h
  split at h
  · next hm => exact Line.routine?_of_mark (Line.mark_mem_of_startsWith hm)
  · cases hr : Line.routine? line with
    | none => rfl
    | some kind =>
      obtain ⟨c, rest, hs, hc⟩ := Line.letter_of_routine? hr
      simp [hs, hc] at h

/-- A line of the top matter opens no routine. -/
theorem routine?_of_takeTop (h : s.takeTop line = .ok (true, s')) : Line.routine? line = none := by
  unfold takeTop at h
  split at h
  · exact routine?_of_topDoc h
  · split at h
    · exact routine?_of_topDoc h
    · split at h
      · next hp =>
        simp only [Line.isPlainComment, Bool.and_eq_true] at hp
        exact Line.routine?_of_mark ((List.isPrefixOf_iff_prefix.1 hp.1).subset (by decide))
      · split at h
        · next hb => exact Line.routine?_of_blank hb
        · cases h

/-- **Every line is read in one way.** -/
theorem line_reads (hs : s.Sound) (hn : 1 ≤ number) (line : Text) :
    ∃ s', s.line number line = .ok s' ∧ Reads number line s s' := by
  cases line_cases hs hn line with
  | guard marked read =>
    exact ⟨s, read, (Keeps.refl s).reads (.inl (Line.routine?_of_guard marked))⟩
  | code inCode read => exact read ▸ codeLine_reads hs inCode number line
  | top top taken read =>
    exact ⟨_, read, (takeTop_keeps hs taken).reads (.inl (routine?_of_takeTop taken))⟩
  | first top refused begun entered read =>
    obtain ⟨s2, he, hr⟩ := codeLine_reads entered rfl number line
    exact ⟨s2, read.trans he,
      (hr.after (enterCode_keeps begun number)).after (takeTop_keeps hs refused)⟩

/-- A run keeps what the reading of each of its lines keeps. `P i` is what holds when `i` lines
have been read. -/
theorem lines_read {P : Nat → Scan → Prop} (ls : List Text)
    (step : ∀ i line, ls[i]? = some line → ∀ s s', s.Sound → P i s →
      Reads ((i + 1 : Nat) : Int) line s s' → P (i + 1) s') (hs : s.Sound) (hP : P 0 s) :
    ∃ s', s.lines 1 ls = .ok s' ∧ s'.Sound ∧ P ls.length s' := by
  -- Over the lines that are left, behind those that have been read.
  suffices h : ∀ rest done, ls = done ++ rest → ∀ s : Scan, s.Sound → P done.length s →
      ∃ s', s.lines (done.length + 1) rest = .ok s' ∧ s'.Sound ∧ P ls.length s' from
    h ls [] rfl s hs hP
  intro rest
  induction rest with
  | nil =>
    rintro done rfl s hs hP
    exact ⟨s, rfl, hs, by simpa using hP⟩
  | cons line rest ih =>
    intro done hl s hs hP
    have hn : (1 : Int) ≤ ((done.length + 1 : Nat) : Int) := by omega
    obtain ⟨s1, he, hr⟩ := line_reads hs hn line
    obtain ⟨s1', he', hm⟩ := line_moves hs hn line
    obtain rfl := Except.ok.inj (he.symm.trans he')
    have hP1 := step done.length line (by simp [hl]) s s1 hs hP hr
    obtain ⟨s2, he2, h2⟩ := ih (done ++ [line]) (by simp [hl]) s1 (hm.sound hn hs)
      (by simpa using hP1)
    rw [List.length_append] at he2
    exact ⟨s2, (lines_cons he rest).trans he2, h2⟩

theorem finish_ledger (hs : s.Sound) : s.finish.ledger = s.ledger.flush := by
  have ended {t : Scan} (ht : t.Sound) (hk : Keeps s t) :
      t.closeFence.flushPending.endDeclaration.ledger = s.ledger.flush := by
    calc t.closeFence.flushPending.endDeclaration.ledger
        = t.closeFence.flushPending.ledger := (endDeclaration_keeps _).ledger
      _ = t.closeFence.ledger.flush := flushPending_ledger _
      _ = s.ledger.flush := by rw [(closeFence_keeps ht).ledger, hk.ledger]
  unfold finish
  split
  · exact ended hs (.refl s)
  · exact ended hs.commitHeld (commitHeld_keeps s)

/-! ## Sections -/

/-- The open section, if there is one, is of a category that sections have. -/
def Shelved (s : Scan) : Prop := ∀ c, s.openSection.category = some c → c ∈ Category.sections

theorem Shelved.reads (h : s.Shelved) (hr : Reads number line s s') : s'.Shelved := by
  intro c hc
  rcases hr.sections c hc with hc | ⟨rest, hc⟩
  · exact h c hc
  · exact Line.sections_of_sectionStart? hc

end Scan

end NimMarkdown
