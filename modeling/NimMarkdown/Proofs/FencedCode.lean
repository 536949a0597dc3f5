import NimMarkdown.Proofs.ModuleDoc
import NimMarkdown.Proofs.Written

/-!
# The code blocks of a source

`Scan.HasBlocks` says what the code blocks are made of that a scan has written: every body
of doc texts of the source, of which it has the line numbers. A line is added to them if it
is read while a code block is open and its text is indented (`Scan.takesBody`); nothing else
changes them. So in `outline_codeBlocks`, the result for a whole source, no line is lost.
-/

namespace NimMarkdown

theorem Line.isDoc_of_isModuleDoc {line : Text} (h : isModuleDoc line = true) :
    isDoc line = true := by
  obtain ⟨rest, rfl⟩ := List.isPrefixOf_iff_prefix.1 h
  exact h

theorem isFenceLine_opening (text : Text) : isFenceLine (openingLine text) = true := by
  unfold openingLine
  split
  · exact isFenceLine_mark
  · exact isFenceLine_source

/-- A text that is trimmed does not go on with a code block. -/
theorem isBody_strip (t : Text) : isBody t.strip = false := by
  have solid : t.strip.head?.any isBlank = false := by
    cases h : t.strip with
    | nil => rfl
    | cons c rest => exact Text.head_strip h
  rw [isBody, solid, Bool.and_false]

namespace Scan

variable {s s' : Scan} {line text : Text} {number : Int} {place : Place} {n : Nat}
  {ls : List Text} {numbers : List Nat}

/-- Bodies that are made of the source lines with these numbers. -/
abbrev Bodies (ls : List Text) (spans : List (List Nat)) (bodies : List (List Text)) : Prop :=
  List.Forall₂ (fun span body => ∃ width, BlockBody ls width span body) spans bodies

/-- The code blocks that have been written are made of the source lines with these numbers. -/
inductive HasBlocks (ls : List Text) (s : Scan) : List Nat → Prop
  | closed {spans : List (List Nat)} (closed : s.fence.isOpen = false) (last : s.blocks.2 = none)
      (bodies : Bodies ls spans s.blocks.1) : HasBlocks ls s spans.flatten
  | opened {spans : List (List Nat)} {span : List Nat} {body : List Text}
      (isOpen : s.fence.isOpen = true) (last : s.blocks.2 = some body)
      (bodies : Bodies ls spans s.blocks.1) (unfinished : BlockBody ls s.fence.indent span body) :
      HasBlocks ls s (spans.flatten ++ span)

/-- The line goes on with the code block that is open. -/
def takesBody (s : Scan) (line : Text) : Bool :=
  s.fence.isOpen && isBody (Line.docText line) &&
    if s.inCode then Line.isDoc line else Line.isModuleDoc line

/-- The number of the line, if it goes on with a code block. -/
def bodyNumber (s : Scan) (line : Text) (n : Nat) : List Nat := if s.takesBody line then [n] else []

/-! ## Changes of the fence -/

theorem HasBlocks.passes (h : HasBlocks ls s numbers) (closed : s.fence.isOpen = false)
    (hp : Passes s s') : HasBlocks ls s' numbers := by
  cases h with
  | closed _ last bodies =>
    have same := hp.blocks last
    exact .closed (hp.fence ▸ closed) (same ▸ last) (same ▸ bodies)
  | opened isOpen => cases isOpen.symm.trans closed

/-- The code blocks do not depend on the other fields of the state. -/
theorem HasBlocks.same (h : HasBlocks ls s numbers) (fence : s'.fence = s.fence)
    (outline : s'.outline = s.outline) : HasBlocks ls s' numbers := by
  have blocks : s'.blocks = s.blocks := by rw [blocks, outline, blocks]
  cases h with
  | closed closed last bodies =>
    exact .closed (fence ▸ closed) (blocks ▸ last) (blocks ▸ bodies)
  | opened isOpen last bodies unfinished =>
    exact .opened (fence ▸ isOpen) (blocks ▸ last) (blocks ▸ bodies) (fence ▸ unfinished)

theorem HasBlocks.holding (h : HasBlocks ls s numbers) (blankHeld : Bool) :
    HasBlocks ls { s with fence := { s.fence with blankHeld } } numbers := by
  cases h with
  | closed closed last bodies => exact .closed closed last bodies
  | opened isOpen last bodies unfinished => exact .opened isOpen last bodies unfinished

theorem HasBlocks.openFence (h : HasBlocks ls s numbers) (hs : s.Sound)
    (closed : s.fence.isOpen = false) (at_ : s.docPlace = some place) (text : Text) :
    HasBlocks ls (s.openFence place text) numbers := by
  cases h with
  | @closed spans _ last bodies =>
    have blocks : (s.openFence place text).blocks = _ :=
      blocks_append (hs.written_append at_ [openingLine text])
    rw [last, readBlocks, if_pos (isFenceLine_opening text), readBlocks, List.append_nil] at blocks
    have opened : HasBlocks ls (s.openFence place text) (spans.flatten ++ []) :=
      .opened rfl (congrArg Prod.snd blocks) (congrArg Prod.fst blocks ▸ bodies) .empty
    rwa [List.append_nil] at opened
  | opened isOpen => cases isOpen.symm.trans closed

theorem readBlocks_closing (body : List Text) (f : Fence) :
    readBlocks (some body) f.closing = ([body], none) := by
  unfold Fence.closing
  split <;> rfl

theorem HasBlocks.closeFence (h : HasBlocks ls s numbers) (hs : s.Sound) :
    HasBlocks ls s.closeFence numbers := by
  rcases hs.closeFence_cases with ⟨-, he⟩ | ⟨place, ho, -, at_, he⟩ <;> rw [he]
  · exact h
  · cases h with
    | closed closed => cases ho.symm.trans closed
    | @opened spans span body _ last bodies unfinished =>
      have blocks : (s.edit place (· ++ s.fence.closing)).blocks = _ :=
        blocks_append (hs.written_append at_ s.fence.closing)
      rw [last, readBlocks_closing] at blocks
      have ended : Bodies ls (spans ++ [span]) (s.blocks.1 ++ [body]) :=
        List.rel_append bodies (.cons ⟨_, unfinished⟩ .nil)
      have closed : HasBlocks ls { s.edit place (· ++ s.fence.closing) with fence := {} }
          (spans ++ [span]).flatten :=
        .closed rfl (congrArg Prod.snd blocks) (congrArg Prod.fst blocks ▸ ended)
      rwa [List.flatten_append, List.flatten_singleton] at closed

/-- A text that goes on with the code block is written to its body. -/
theorem HasBlocks.writeFenced (h : HasBlocks ls s numbers) (hs : s.Sound)
    (ho : s.fence.isOpen = true) (hp : s.fence.place = some place) (ht : Unmarked text)
    (doc : BodyText ls n text) :
    HasBlocks ls ((s.indented (s.fence.indent.getD text.indent)).writeFenced place
      (min (s.fence.indent.getD text.indent) text.indent) text) (numbers ++ [n]) := by
  rw [writeFenced_eq]
  cases h with
  | closed closed => cases ho.symm.trans closed
  | @opened spans span body _ last bodies unfinished =>
    let line := dedent (s.fence.indent.getD text.indent) text
    have plain : ∀ l ∈ s.fence.resuming ++ [line], isFenceLine l = false := by
      refine List.forall_mem_append.2 ⟨?_, plain_singleton (ht.trimmed _).not_fence⟩
      unfold Fence.resuming
      split
      · exact plain_singleton rfl
      · exact nofun
    have blocks : (s.edit place (· ++ (s.fence.resuming ++ [line]))).blocks = _ :=
      blocks_append (hs.written_append (hs.docPlace_of_open ho hp) (s.fence.resuming ++ [line]))
    rw [last, readBlocks_body plain, List.append_nil] at blocks
    have longer : BlockBody ls (some (s.fence.indent.getD text.indent)) (span ++ [n])
        (body ++ (s.fence.resuming ++ [line])) := by
      cases hi : s.fence.indent with
      | none =>
        have atStart := (hs.fence.start ho).2 hi
        rw [hi] at unfinished
        cases unfinished
        simpa [line, hi, Fence.resuming, hs.fence.start_blank atStart] using BlockBody.first doc
      | some width =>
        rw [hi] at unfinished
        simpa [line, hi, Fence.resuming] using unfinished.next s.fence.blankHeld doc
    rw [List.append_assoc]
    exact .opened ho (congrArg Prod.snd blocks) (congrArg Prod.fst blocks ▸ bodies) longer

/-- Of the texts that an open code block is given, it writes those that go on with it. -/
theorem feedFence_blocks (hs : s.Sound) (ho : s.fence.isOpen = true) (h : HasBlocks ls s numbers)
    (ht : Unmarked text) (doc : isBody text = true → BodyText ls n text) :
    ∃ taken s', s.feedFence text = .ok (taken, s') ∧
      HasBlocks ls s' (numbers ++ if isBody text then [n] else []) := by
  cases hb : isBody text with
  | true =>
    obtain ⟨place, hp⟩ := Option.isSome_iff_exists.1 (hs.fence.placed ho)
    exact ⟨true, _, feedFence_of_body hb hp, h.writeFenced hs ho hp ht (doc hb)⟩
  | false =>
    rw [if_neg Bool.false_ne_true, List.append_nil]
    cases hn : text.isBlankText with
    | false => exact ⟨false, _, feedFence_of_end hb hn, h.closeFence hs⟩
    | true =>
      rw [feedFence_of_blank hn]
      split
      · exact ⟨true, _, rfl, h⟩
      · split
        · have drop : DocMove text s { s with fence := { s.fence with blankHeld := false } } :=
            .dropBlank ho
          exact ⟨false, _, rfl, (h.holding false).closeFence (drop.sound hs)⟩
        · exact ⟨true, _, rfl, h.holding true⟩

/-! ## Lines of the code -/

theorem takeDoc_blocks (hs : s.Sound) (idle : s.Idle) (pending : s.pending.lines = [])
    (ht : Unmarked text) (h : HasBlocks ls s numbers) : HasBlocks ls (s.takeDoc text) numbers := by
  obtain ⟨hi, closed, hx⟩ := idle
  unfold takeDoc
  split
  · next ha =>
    obtain ⟨moves, free, -, at_⟩ :=
      commentPlace_spec hi ⟨closed, hs.code hi, pending, hx, ha⟩ text
    have hs' := docMoves_sound hs moves
    have placed := h.passes closed (commentPlace_passes hs)
    split
    · exact placed.openFence hs' free.1 at_ text
    · exact placed.passes free.1 (docTextAt_passes hs' at_ ht)
  · exact h

theorem textLine_blocks (hs : s.Sound) (idle : s.Idle) (hl : Unmarked line)
    (h : HasBlocks ls s numbers) (number : Int) :
    HasBlocks ls (s.textLine number line) numbers := by
  unfold textLine
  split
  · rw [docLine_eq]
    split
    · exact h
    · exact takeDoc_blocks hs.flushPending idle.flushPending (by simp)
        (hl.part (Line.docText_part line)) (h.passes idle.2.1 (flushPending_passes s))
  · refine h.passes idle.2.1 ?_
    split
    · next code doc hc =>
      exact inlineDoc_passes s code (hl.part (Line.splitInlineDoc_part hc).2) number
    · split
      · next hi => exact importLine_passes hi
      · exact declarationLine_passes s number line

theorem bodyLine_blocks (hs : s.Sound) (idle : s.Idle) (hl : Unmarked line)
    (h : HasBlocks ls s numbers) (number : Int) :
    HasBlocks ls (s.bodyLine number line) numbers := by
  rw [bodyLine_eq]
  split
  · exact h.passes idle.2.1 { flushPending_passes s with }
  · unfold atMargin
    split
    · exact textLine_blocks hs.accept idle hl (h.passes idle.2.1 (passes_of_same rfl rfl)) number
    · exact textLine_blocks hs idle hl h number

theorem bodyNumber_of_closed (closed : s.fence.isOpen = false) (line : Text) (n : Nat) :
    s.bodyNumber line n = [] := by
  simp [bodyNumber, takesBody, closed]

theorem plainLine_blocks (hs : s.Sound) (hr : s.Reading) (hl : Unmarked line)
    (at_ : lineAt ls n = some line) (h : HasBlocks ls s numbers) (number : Int) :
    ∃ s', s.plainLine number line = .ok s' ∧
      HasBlocks ls s' (numbers ++ s.bodyNumber line n) := by
  have ht := hl.part (Line.docText_part line)
  cases ho : s.fence.isOpen with
  | false =>
    refine ⟨_, plainLine_of_refused (fencedLine_of_closed ho), ?_⟩
    rw [bodyNumber_of_closed ho, List.append_nil]
    exact bodyLine_blocks hs ⟨hr.1, ho, hr.2⟩ hl h number
  | true =>
    cases hd : Line.isDoc line with
    | false =>
      obtain ⟨taken, s1, he, hm, idle⟩ := fencedLine_reading hs hr line
      obtain ⟨rfl, rfl⟩ := Prod.mk.inj (Except.ok.inj ((fencedLine_of_code hd).symm.trans he))
      refine ⟨_, plainLine_of_refused he, ?_⟩
      have none : s.bodyNumber line n = [] := by simp [bodyNumber, takesBody, hr.1, hd]
      rw [none, List.append_nil]
      exact bodyLine_blocks (docMoves_sound hs hm) (idle rfl) hl (h.closeFence hs) number
    | true =>
      obtain ⟨taken, s1, he, h1⟩ :=
        feedFence_blocks hs ho h ht fun hb => ⟨line, at_, hd, rfl, hb⟩
      have same : s.bodyNumber line n = if isBody (Line.docText line) then [n] else [] := by
        simp [bodyNumber, takesBody, ho, hr.1, hd]
      rw [same]
      have hf := fencedLine_of_fed hs ho hd he
      cases taken with
      | true => exact ⟨s1, plainLine_of_taken hf, h1⟩
      | false =>
        obtain ⟨_, _, he', hm, idle⟩ := fencedLine_reading hs hr line
        obtain ⟨rfl, rfl⟩ := Prod.mk.inj (Except.ok.inj (hf.symm.trans he'))
        exact ⟨_, plainLine_of_refused hf,
          bodyLine_blocks (docMoves_sound hs hm) (idle rfl) hl h1 number⟩

theorem codeLine_blocks (hs : s.Sound) (inCode : s.inCode = true) (hl : Unmarked line)
    (at_ : lineAt ls n = some line) (h : HasBlocks ls s numbers) (number : Int) :
    ∃ s', s.codeLine number line = .ok s' ∧
      HasBlocks ls s' (numbers ++ s.bodyNumber line n) := by
  cases hx : s.capture.active with
  | false =>
    rw [codeLine_eq, captured_of_inactive hx]
    exact plainLine_blocks hs ⟨inCode, hx⟩ hl at_ h number
  | true =>
    have closed := hs.closed_of_capture hx
    have captured := captured_passes s line
    have h1 := h.passes closed captured
    rw [codeLine_eq, bodyNumber_of_closed closed, List.append_nil]
    split
    · exact ⟨_, rfl, h1⟩
    · next hc =>
      obtain ⟨s', he, h2⟩ := plainLine_blocks (captured_moves hs number line).2
        (captured_reading inCode (by simpa using hc)) hl at_ h1 number
      rw [bodyNumber_of_closed (captured.fence ▸ closed), List.append_nil] at h2
      exact ⟨s', he, h2⟩

/-! ## Lines of the top matter -/

theorem HasBlocks.commitHeld (h : HasBlocks ls s numbers) (hs : s.Sound) (top : s.inCode = false)
    (hf : s.Fenced) : HasBlocks ls s.commitHeld numbers := by
  cases hh : s.held with
  | none =>
    rw [Scan.commitHeld, hh]
    exact h
  | some above =>
    have closed : s.fence.isOpen = false := by
      cases ho : s.fence.isOpen with
      | false => rfl
      | true => cases (hs.fence_open ho).1.symm.trans hh
    exact h.passes closed (commitHeld_passes hs top hf)

theorem topText_blocks (hs : s.Sound) (top : s.inCode = false) (hf : s.Fenced)
    (closed : s.fence.isOpen = false) (h : HasBlocks ls s numbers) (text : Text) :
    HasBlocks ls (s.topText text) numbers := by
  obtain ⟨-, hi, hfence, -⟩ := commitHeld_frame s
  simp only [topText]
  split
  · exact (h.commitHeld hs top hf).openFence hs.commitHeld (hfence ▸ closed)
      (by simp [docPlace, hi, top]) text
  · refine h.passes closed ?_
    split
    · exact passes_of_same rfl rfl
    · next above hh =>
      split
      · exact { appendTop_passes hs top (isFenceLine_heading _ above) with }
      · exact { appendTop_passes hs top (hf.held above hh).not_fence with }

theorem topLine_blocks (hs : s.Sound) (top : s.inCode = false) (hf : s.Fenced) (ht : Unmarked text)
    (doc : isBody text = true → BodyText ls n text) (h : HasBlocks ls s numbers) :
    ∃ s', s.topLine text = .ok s' ∧ s'.docSeen = s.docSeen ∧ s'.copyrightSeen = s.copyrightSeen ∧
      HasBlocks ls s' (numbers ++ if s.fence.isOpen && isBody text then [n] else []) := by
  cases ho : s.fence.isOpen with
  | false =>
    obtain ⟨h1, h2, -⟩ := topText_frame s text
    rw [Bool.false_and, if_neg Bool.false_ne_true, List.append_nil]
    refine ⟨s.topText text, ?_, h1, h2, topText_blocks hs top hf ho h text⟩
    rw [topLine, if_neg (by simp [ho])]
  | true =>
    obtain ⟨place, hp⟩ := Option.isSome_iff_exists.1 (hs.fence.placed ho)
    obtain ⟨taken, written, fence, he, hc, -⟩ := answersFenced hs.fence ho hp text
    obtain ⟨_, _, he', h'⟩ := feedFence_blocks hs ho h ht doc
    obtain ⟨rfl, rfl⟩ := Prod.mk.inj (Except.ok.inj (he.symm.trans he'))
    rw [topLine, if_pos ho, he, Bool.true_and]
    cases taken with
    | true => exact ⟨_, rfl, rfl, rfl, h'⟩
    | false =>
      obtain ⟨_, _, he', hm, -⟩ := feedFence_moves hs ho text
      obtain ⟨rfl, rfl⟩ := Prod.mk.inj (Except.ok.inj (he.symm.trans he'))
      obtain ⟨h1, h2, -⟩ := topText_frame { s.edit place (· ++ written) with fence } text
      refine ⟨_, rfl, h1, h2, ?_⟩
      exact topText_blocks (docMoves_sound hs hm) top (docMoves_fenced ht hs hf hm) hc h' text

/-- Until the doc comment or a copyright note has been read no code block is open. So the first
note, which is written at once, does not stand in one. -/
def Unbegun (s : Scan) : Prop :=
  s.inCode = false → s.docSeen = false → s.copyrightSeen = false → s.fence.isOpen = false

theorem bodyNumber_of_other (top : s.inCode = false) (h : Line.isModuleDoc line = false) (n : Nat) :
    s.bodyNumber line n = [] := by
  simp [bodyNumber, takesBody, top, h]

theorem topDoc_blocks (hs : s.Sound) (top : s.inCode = false) (hf : s.Fenced) (hl : Unmarked line)
    (at_ : lineAt ls n = some line) (h : HasBlocks ls s numbers) :
    ∃ taken s', s.topDoc line = .ok (taken, s') ∧ s'.docSeen = s.docSeen ∧
      HasBlocks ls s' (numbers ++ s.bodyNumber line n) := by
  unfold topDoc
  split
  · next hm =>
    obtain ⟨s', he, h1, -, h2⟩ := topLine_blocks hs top hf (hl.part (Line.docText_part line))
      (fun hb => ⟨line, at_, Line.isDoc_of_isModuleDoc hm, rfl, hb⟩) h
    have same : s.bodyNumber line n =
        if s.fence.isOpen && isBody (Line.docText line) then [n] else [] := by
      simp [bodyNumber, takesBody, top, Line.isModuleDoc, hm]
    rw [he, same]
    exact ⟨true, s', rfl, h1, h2⟩
  · next hm =>
    rw [bodyNumber_of_other top (Bool.eq_false_iff.2 hm), List.append_nil]
    split
    · exact ⟨false, s, rfl, rfl, h⟩
    · exact ⟨_, s, rfl, rfl, h⟩

theorem topComment_blocks (hs : s.Sound) (top : s.inCode = false) (hf : s.Fenced)
    (hl : Unmarked line) (unbegun : s.copyrightSeen = false → s.fence.isOpen = false)
    (h : HasBlocks ls s numbers) :
    ∃ s', s.topComment line = .ok s' ∧
      (s'.copyrightSeen = false → s'.fence.isOpen = false) ∧ HasBlocks ls s' numbers := by
  unfold topComment
  split
  · split
    · next seen =>
      have plain : isBody (Line.commentText line) = false := isBody_strip _
      obtain ⟨s', he, -, h1, h2⟩ := topLine_blocks (n := 0) hs top hf
        (hl.part (Line.commentText_part line))
        (fun hb => absurd (plain.symm.trans hb) Bool.false_ne_true) h
      rw [plain, Bool.and_false, if_neg Bool.false_ne_true, List.append_nil] at h2
      have kept : s'.copyrightSeen = true := h1.trans seen
      exact ⟨s', he, fun unseen => absurd (unseen.symm.trans kept) Bool.false_ne_true, h2⟩
    · next unseen =>
      have closed := unbegun (by simpa using unseen)
      let t := s.appendLine .topMatter ('*' :: (Line.commentText line ++ ['*']))
      have note : Passes s t := appendTop_passes hs top (isFenceLine_cons (by decide) _)
      have blank : Passes t (t.appendLine .topMatter []) :=
        appendTop_passes (hs.edit .topMatter (· ++ [_])) top rfl
      exact ⟨_, rfl, nofun, h.passes closed { note.trans blank with }⟩
  · exact ⟨s, rfl, unbegun, h⟩

theorem takeTop_blocks (hs : s.Sound) (top : s.inCode = false) (hf : s.Fenced) (hl : Unmarked line)
    (unbegun : s.Unbegun) (at_ : lineAt ls n = some line) (h : HasBlocks ls s numbers) :
    ∃ taken s', s.takeTop line = .ok (taken, s') ∧ s'.Unbegun ∧
      HasBlocks ls s' (numbers ++ s.bodyNumber line n) := by
  have begun {t : Scan} (seen : t.docSeen = true) : t.Unbegun :=
    fun _ unseen => absurd (unseen.symm.trans seen) Bool.false_ne_true
  unfold takeTop
  split
  · next seen =>
    obtain ⟨taken, s', he, h1, h2⟩ := topDoc_blocks hs top hf hl at_ h
    exact ⟨taken, s', he, begun (h1.trans seen), h2⟩
  · next unseen =>
    split
    · obtain ⟨taken, s', he, h1, h2⟩ := topDoc_blocks (s := { s with docSeen := true })
        { hs with } top { hf with } hl at_ (h.same rfl rfl)
      exact ⟨taken, s', he, begun h1, h2⟩
    · next hm =>
      rw [bodyNumber_of_other top (Bool.eq_false_iff.2 hm), List.append_nil]
      split
      · obtain ⟨s', he, h1, h2⟩ :=
          topComment_blocks hs top hf hl (unbegun top (by simpa using unseen)) h
        rw [he]
        exact ⟨true, s', rfl, fun _ _ => h1, h2⟩
      · split
        · exact ⟨true, s, rfl, unbegun, h⟩
        · exact ⟨false, _, rfl, begun rfl, h.same rfl rfl⟩

theorem enterCode_blocks (hs : s.Sound) (top : s.inCode = false) (hf : s.Fenced)
    (h : HasBlocks ls s numbers) (number : Int) : HasBlocks ls (s.enterCode number) numbers :=
  ((h.commitHeld hs top hf).closeFence hs.commitHeld).same rfl rfl

theorem finish_blocks (hs : s.Sound) (hf : s.Fenced) (h : HasBlocks ls s numbers) :
    HasBlocks ls s.finish numbers := by
  have ended {t : Scan} (ht : t.Sound) (h : HasBlocks ls t numbers) :
      HasBlocks ls t.closeFence.flushPending.endDeclaration numbers :=
    (h.closeFence ht).passes (closeFence_isOpen ht) { flushPending_passes t.closeFence with }
  unfold finish
  split
  · exact ended hs h
  · next hi => exact ended hs.commitHeld (h.commitHeld hs (by simpa using hi) hf)

/-! ## A run -/

/-- What holds between two lines: the code blocks that have been written are made of the source
lines with these numbers. -/
structure Writes (ls : List Text) (numbers : List Nat) (s : Scan) : Prop where
  sound : s.Sound
  fenced : s.Fenced
  unbegun : s.Unbegun
  blocks : HasBlocks ls s numbers

theorem fresh_writes (exportedOnly : Bool) (ls : List Text) :
    Writes ls [] (fresh exportedOnly) where
  sound := fresh_sound exportedOnly
  fenced := fresh_fenced exportedOnly
  unbegun _ _ _ := rfl
  blocks := @HasBlocks.closed ls (fresh exportedOnly) [] rfl rfl .nil

theorem bodyNumber_of_guard (h : Line.isMainGuard line = true) (s : Scan) (n : Nat) :
    s.bodyNumber line n = [] := by
  have code : Line.isDoc line = false := by
    obtain ⟨blanks, he⟩ := Text.stripRight_isPrefix line.stripLeft
    rw [Line.isDoc, ← he, show line.stripLeft.stripRight = _ from beq_iff_eq.1 h]
    rfl
  have other : Line.isModuleDoc line = false :=
    Bool.eq_false_iff.2 fun hm =>
      Bool.false_ne_true (code.symm.trans (Line.isDoc_of_isModuleDoc hm))
  simp [bodyNumber, takesBody, code, other]

/-- **A line of the source** is added to the code blocks if it goes on with one, and nothing else
is. -/
theorem line_writes (hl : Unmarked line) (hn : 1 ≤ n) (at_ : lineAt ls n = some line)
    (h : Writes ls numbers s) :
    ∃ s', s.line n line = .ok s' ∧ Writes ls (numbers ++ s.bodyNumber line n) s' := by
  obtain ⟨hs, hf, unbegun, blocks⟩ := h
  have hn' : (1 : Int) ≤ n := by omega
  obtain ⟨s', he, hs', hf'⟩ :=
    line_keep hn' (fun _ _ hs hf hm => hm.fenced hl hs hf) hs hf
  suffices h : ∃ s', s.line n line = .ok s' ∧ s'.Unbegun ∧
      HasBlocks ls s' (numbers ++ s.bodyNumber line n) by
    obtain ⟨t, ht, begun, h⟩ := h
    obtain rfl := Except.ok.inj (he.symm.trans ht)
    exact ⟨s', he, hs', hf', begun, h⟩
  have inside {t t' : Scan} (ht : t.Sound) (hi : t.inCode = true)
      (h : t.codeLine n line = .ok t') : t'.Unbegun := by
    obtain ⟨_, he, hm⟩ := codeLine_moves ht hi n line
    obtain rfl := Except.ok.inj (h.symm.trans he)
    have stays := (hm.extends hn' hi ht (extends_nil t)).2
    exact fun top => absurd (top.symm.trans stays) Bool.false_ne_true
  cases line_cases hs hn' line with
  | guard marked read =>
    rw [bodyNumber_of_guard marked, List.append_nil]
    exact ⟨s, read, unbegun, blocks⟩
  | code inCode read =>
    obtain ⟨t, ht, h⟩ := codeLine_blocks hs inCode hl at_ blocks n
    exact ⟨t, read.trans ht, inside hs inCode ht, h⟩
  | top top taken read =>
    obtain ⟨_, _, ht, begun, h⟩ := takeTop_blocks hs top hf hl unbegun at_ blocks
    obtain ⟨-, rfl⟩ := Prod.mk.inj (Except.ok.inj (taken.symm.trans ht))
    exact ⟨_, read, begun, h⟩
  | first top refused begun entered read =>
    obtain ⟨_, _, ht, -, h⟩ := takeTop_blocks hs top hf hl unbegun at_ blocks
    obtain ⟨-, rfl⟩ := Prod.mk.inj (Except.ok.inj (refused.symm.trans ht))
    obtain ⟨t, ht, h2⟩ := codeLine_blocks entered rfl hl at_
      (enterCode_blocks begun top { hf with } h n) n
    have closed : (enterCode { s with docSeen := true } n).fence.isOpen = false :=
      closeFence_isOpen begun.commitHeld
    rw [bodyNumber_of_closed closed, List.append_nil] at h2
    exact ⟨t, read.trans ht, inside entered rfl ht, h2⟩

/-- The numbers of the lines that go on with a code block, each read in the state before it. -/
def bodyNumbers (n : Nat) (states : List Scan) (lines : List Text) : List Nat :=
  (((states.zip lines).zipIdx n).filter fun p => p.1.1.takesBody p.1.2).map Prod.snd

theorem bodyNumbers_ordered (n : Nat) (states : List Scan) (lines : List Text) :
    (bodyNumbers n states lines).Pairwise (· < ·) := by
  have all : ((states.zip lines).zipIdx n).map Prod.snd =
      List.range' n (states.zip lines).length := List.zipIdx_map_snd n _
  have part : (bodyNumbers n states lines).Sublist (List.range' n (states.zip lines).length) :=
    all ▸ List.filter_sublist.map Prod.snd
  exact (List.pairwise_lt_range').sublist part

/-- Over a run the lines add up. -/
theorem states_write (rest : List Text) (n : Nat) (hn : 1 ≤ n)
    (at_ : ∀ i line, rest[i]? = some line → lineAt ls (n + i) = some line)
    (unmarked : ∀ l ∈ rest, Unmarked l) (h : Writes ls numbers s) :
    ∃ states final, s.states n rest = .ok states ∧ (s.lines n rest).map finish = .ok final ∧
      states.length = rest.length + 1 ∧ final.outline.Fenced ∧ final.fence.isOpen = false ∧
      HasBlocks ls final (numbers ++ bodyNumbers n states rest) := by
  induction rest generalizing s n numbers with
  | nil =>
    have ended := (finish_keep (fun _ _ hs hf hm => hm.fenced unmarked_nil hs hf) h.sound
      h.fenced).2
    have none : bodyNumbers n [s.finish] [] = [] := rfl
    have closed := finish_closed h.sound
    refine ⟨[s.finish], s.finish, rfl, rfl, rfl, ended.outline closed, closed, ?_⟩
    rw [none, List.append_nil]
    exact finish_blocks h.sound h.fenced h.blocks
  | cons line rest ih =>
    obtain ⟨s1, he, h1⟩ := line_writes (unmarked line List.mem_cons_self) hn
      (at_ 0 line rfl) h
    obtain ⟨states, final, hst, hfin, hlen, hf, closed, hb⟩ := ih (n + 1) (by omega)
      (fun i l hl => by rw [Nat.add_assoc, Nat.add_comm 1]; exact at_ (i + 1) l hl)
      (fun l hl => unmarked l (List.mem_cons_of_mem _ hl)) h1
    refine ⟨s :: states, final, ?_, ?_, by simp [hlen], hf, closed, ?_⟩
    · rw [states_cons he, hst]
      rfl
    · rw [lines_cons he, hfin]
    · have split : bodyNumbers n (s :: states) (line :: rest) =
          s.bodyNumber line n ++ bodyNumbers (n + 1) states rest := by
        rw [bodyNumbers, List.zip_cons_cons, List.zipIdx_cons, List.filter_cons, bodyNumber]
        split <;> rfl
      rwa [split, ← List.append_assoc]

end Scan

namespace Source

/-- **Code blocks have clean bodies and lose no code.** In the top matter and the comments of a
source in which no fence mark occurs every code block is closed. What stands between the fences are
the doc texts of source lines, as `CodeBlock` says. Together these are all lines that were read
while a code block was open and had an indented text; they come in the order of the source, and
each of them once. -/
theorem outline_codeBlocks {settings : Settings} {options : Options}
    (valid : settings.validate = .ok options) {content : Text} (h : ¬ fenceMark <:+: content) :
    ∃ states o spans, Scan.sourceStates (options.on .exportedOnly) content = .ok states ∧
      outline settings content = .ok o ∧ states.length = (Scan.sourceLines content).length + 1 ∧
      (∀ part ∈ o.docParts, (readBlocks none part).2 = none) ∧
      List.Forall₂ (CodeBlock (Scan.sourceLines content)) spans o.codeBlocks ∧
      spans.flatten = Scan.bodyNumbers 1 states (Scan.sourceLines content) ∧
      spans.flatten.Pairwise (· < ·) := by
  obtain ⟨states, final, hst, hfin, hlen, hf, closed, blocks⟩ :=
    Scan.states_write (Scan.sourceLines content) 1 (Nat.le_refl 1)
      (fun i line hl => by rw [Nat.add_comm]; exact hl)
      (fun l hl => Scan.sourceLines_unmarked h hl)
      (Scan.fresh_writes (options.on .exportedOnly) (Scan.sourceLines content))
  have balanced := hf.balanced
  have whole : final.outline.codeBlocks = final.blocks.1 := by
    rw [Outline.codeBlocks, ← codeBlocks_flatten balanced, ← Outline.written_eq]
    rfl
  rw [List.nil_append] at blocks
  generalize hnumbers : Scan.bodyNumbers 1 states (Scan.sourceLines content) = numbers at blocks
  cases blocks with
  | opened isOpen => cases isOpen.symm.trans closed
  | @closed spans _ _ bodies =>
    refine ⟨states, final.outline, spans, hst, outline_of_source valid hfin, hlen,
      fun part hp => by rw [(balanced part hp).readBlocks], ?_, hnumbers.symm, ?_⟩
    · rw [whole]
      exact bodies.imp fun _ _ ⟨_, body⟩ => body.codeBlock
    · rw [← hnumbers]
      exact Scan.bodyNumbers_ordered 1 states _

/-- A code block with a blank line before a shallow one, and one that is open at the end. -/
def shallowBlock : Text :=
  ("## .. code-block::\n##\n##    echo 1 \n##\n##  echo 2\n## Text\nproc run*() =\n" ++
    "  ## .. code-block::\n  ##  run()\n  ##\n").toList

theorem outline_codeBlocks_shallowBlock :
    let options := Settings.byDefault.toOptions
    Settings.byDefault.validate = .ok options ∧ ¬ fenceMark <:+: shallowBlock ∧
      ∃ states o spans, Scan.sourceStates (options.on .exportedOnly) shallowBlock = .ok states ∧
        outline .byDefault shallowBlock = .ok o ∧
        List.Forall₂ (CodeBlock (Scan.sourceLines shallowBlock)) spans o.codeBlocks ∧
        o.codeBlocks = [["echo 1".toList, [], "echo 2".toList], ["run()".toList]] ∧
        spans.flatten = [3, 5, 9] := by
  have unmarked : ¬ fenceMark <:+: shallowBlock := by
    rw [← Text.hasPart_iff]
    decide +kernel
  have valid : Settings.byDefault.validate = .ok Settings.byDefault.toOptions := rfl
  obtain ⟨states, o, spans, hst, ho, -, -, bodies, numbers, -⟩ := outline_codeBlocks valid unmarked
  have written : (outline .byDefault shallowBlock).map Outline.codeBlocks =
      .ok [["echo 1".toList, [], "echo 2".toList], ["run()".toList]] := by decide +kernel
  have read : (Scan.sourceStates (Settings.byDefault.toOptions.on .exportedOnly) shallowBlock).map
      (fun states => Scan.bodyNumbers 1 states (Scan.sourceLines shallowBlock)) =
      .ok [3, 5, 9] := by decide +kernel
  rw [ho] at written
  rw [hst] at read
  exact ⟨valid, unmarked, states, o, spans, hst, ho, bodies, Except.ok.inj written,
    numbers.trans (Except.ok.inj read)⟩

end Source

end NimMarkdown
