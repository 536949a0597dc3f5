import NimMarkdown.Proofs.Growth

/-!
# States with the same outcome

The outcome of a state over the rest of a source is the outline that a scan comes to
from there. States that differ in what the rest does not depend on have the same
outcome:

* `outcome_inSection`: the open section, if the next line of code leaves it anyway,
  or finds the same in both;
* `outcome_accepting`: whether doc lines are taken, if there are none up to the next
  line without indent.

Either is a simulation of one run by the other. A line keeps the difference or ends
it, and then the two states are the same but for what is never read again.
-/

namespace NimMarkdown

/-! ## Lines and sections -/

/-- The sections are the same to all lines. Without a category the indent is not read. -/
def OpenSection.Same (a b : OpenSection) : Prop :=
  a.category = b.category ∧ (a.category.isSome = true → a.indent = b.indent)

/-- The sections are the same to a line with an indent. -/
def OpenSection.SameAt (indent : Nat) (a b : OpenSection) : Prop :=
  a.category = b.category ∧
    (indent ≠ 0 → a.category.isSome = true → a.indent.getD indent = b.indent.getD indent)

theorem OpenSection.Same.sameAt {a b : OpenSection} (h : a.Same b) (indent : Nat) :
    a.SameAt indent b :=
  ⟨h.1, fun _ hc => by rw [h.2 hc]⟩

namespace Line

/-- The code before a doc comment has the indent of its line. -/
theorem indent_of_splitInlineDoc {line code doc : Text}
    (h : splitInlineDoc line = some (code, doc)) : code.indent = line.indent := by
  unfold splitInlineDoc at h
  split at h
  · cases h
  · next before after hc =>
    split at h
    · cases h
    · next hb =>
      cases h
      have hb : before.isBlankText = false := by simpa using hb
      rw [Text.indent_stripRight hb, Text.cutAt_eq hc, List.append_assoc, Text.indent_append hb]

/-- The line is passed over, imports something, or belongs to a doc comment: it has nothing to do
with sections. -/
def isQuiet (line : Text) : Bool :=
  line.isBlankText || isDoc line ||
    ((splitInlineDoc line).isNone &&
      ((importBullet line.strip).isSome || (includeBullet line.strip).isSome))

/-- The line is code that may have to do with sections. -/
def isCode (line : Text) : Bool := !isQuiet line && !isMainGuard line

/-- The line has text without indent, and is not passed over. -/
def isUnindented (line : Text) : Bool :=
  !line.isBlankText && line.indent == 0 && !isMainGuard line

/-- The line leaves the open section without regard to what it is. -/
def leavesSection (line : Text) : Bool :=
  match splitInlineDoc line with
  | none => line.indent == 0 || (routine? line).isSome
  | some (code, _) =>
    code.indent == 0 && ((routine? code).isSome || (sectionStart? code.strip).isSome)

end Line

namespace Scan

variable {s s' : Scan} {line code doc text : Text} {number : Int} {o : OpenSection}

theorem inSection_eq (s : Scan) (o : OpenSection) :
    s.inSection o = s.relabel { openSection := fun _ => o } :=
  (relabel_of_numbers s id fun _ => o).symm

/-- The second state is the first one with a section that is the same to all lines. -/
def Alike (s t : Scan) : Prop := ∃ o, t = s.inSection o ∧ s.openSection.Same o

/-- An operation that does the same in every section leaves it open. -/
theorem openSection_of_inSection {f : Scan → Scan}
    (h : ∀ o, f (s.inSection o) = (f s).inSection o) : (f s).openSection = s.openSection := by
  have kept : f s = (f s).inSection s.openSection := h s.openSection
  exact (congrArg Scan.openSection kept).trans rfl

theorem alike_of_inSection {f : Scan → Scan} (h : ∀ o, f (s.inSection o) = (f s).inSection o)
    (same : s.openSection.Same o) : Alike (f s) (f (s.inSection o)) :=
  ⟨o, h o, openSection_of_inSection h ▸ same⟩

theorem flushPending_inSection (s : Scan) (o : OpenSection) :
    (s.inSection o).flushPending = s.flushPending.inSection o := by
  rw [inSection_eq, inSection_eq, flushPending_relabel fun _ => rfl]

theorem declareLine_inSection (s : Scan) (code doc : Text) (number : Int) (category : Category)
    (o : OpenSection) : (s.inSection o).declareLine code doc number category =
      (s.declareLine code doc number category).inSection o := by
  rw [inSection_eq, inSection_eq, ← declareLine_relabel fun _ => rfl]
  rfl

theorem startDeclaration_inSection (s : Scan) (line : Text) (number : Int) (o : OpenSection) :
    (s.inSection o).startDeclaration line number =
      (s.startDeclaration line number).inSection o := by
  rw [inSection_eq, inSection_eq, ← startDeclaration_relabel fun _ => rfl]
  rfl

theorem continueDeclaration_inSection (s : Scan) (line : Text) (o : OpenSection) :
    (s.inSection o).continueDeclaration line = (s.continueDeclaration line).inSection o := by
  rw [inSection_eq, inSection_eq, continueDeclaration_relabel fun _ => rfl]

theorem docLine_inSection (s : Scan) (line : Text) (o : OpenSection) :
    (s.inSection o).docLine line = (s.docLine line).inSection o := by
  rw [inSection_eq, inSection_eq, docLine_relabel fun _ => rfl]

theorem importLine_inSection (s : Scan) (text : Text) (o : OpenSection) :
    (s.inSection o).importLine text = (s.importLine text).map (·.inSection o) := by
  simp only [inSection_eq]
  exact importLine_relabel (fun _ => rfl) s text

theorem captured_inSection (s : Scan) (line : Text) (o : OpenSection) :
    (s.inSection o).captured line = ((s.captured line).1, (s.captured line).2.inSection o) := by
  rw [inSection_eq, inSection_eq, captured_relabel]

theorem fencedLine_inSection {taken : Bool} (h : s.fencedLine line = .ok (taken, s'))
    (o : OpenSection) : (s.inSection o).fencedLine line = .ok (taken, s'.inSection o) := by
  rw [inSection_eq, inSection_eq, fencedLine_relabel h]

theorem finish_inSection (s : Scan) (o : OpenSection) :
    (s.inSection o).finish = s.finish.inSection o := by
  rw [inSection_eq, inSection_eq, finish_relabel fun _ => rfl]

theorem atMargin_inSection (s : Scan) (line : Text) (o : OpenSection) :
    (s.inSection o).atMargin line = (s.atMargin line).inSection o := by
  unfold atMargin
  split <;> rfl

theorem importLine_isSome (s : Scan) (text : Text) : (s.importLine text).isSome =
    ((Line.importBullet text).isSome || (Line.includeBullet text).isSome) := by
  unfold importLine
  split
  · next h => simp [h]
  · next h => simp [h]

/-- A quiet line does the same in every section. -/
theorem bodyLine_inSection (quiet : Line.isQuiet line = true) (s : Scan) (number : Int)
    (o : OpenSection) :
    (s.inSection o).bodyLine number line = (s.bodyLine number line).inSection o := by
  rw [bodyLine_eq, bodyLine_eq, flushPending_inSection, atMargin_inSection]
  split
  · rfl
  · next hb =>
    unfold textLine
    split
    · exact docLine_inSection _ line o
    · next hd =>
      simp only [Line.isQuiet, hb, hd, Bool.false_or, Bool.and_eq_true, Option.isNone_iff_eq_none,
        ← importLine_isSome (s.atMargin line), Option.isSome_iff_exists] at quiet
      obtain ⟨bare, t, ht⟩ := quiet
      rw [bare, importLine_inSection, ht]
      rfl

/-! ## Lines of code in two sections -/

theorem lineCategory_inSection (h : s.openSection.category = o.category) (code : Text) :
    (s.inSection o).lineCategory code = s.lineCategory code := by
  simp [lineCategory, inSection, h]

theorem lineCategory_of_leaves (h : Line.splitInlineDoc line = some (code, doc))
    (leaves : Line.leavesSection line = true) :
    (s.inSection o).lineCategory code = s.lineCategory code := by
  simp only [Line.leavesSection, h, Bool.and_eq_true, Bool.or_eq_true, Option.isSome_iff_exists]
    at leaves
  obtain ⟨margin, ⟨kind, hr⟩ | ⟨found, hk⟩⟩ := leaves
  · simp [lineCategory, hr]
  · simp [lineCategory, margin, hk]

/-- An indented line with a doc comment fixes the indent of the entries. -/
theorem inlineSection_indented (s : Scan) (h : code.indent ≠ 0) :
    (s.inlineSection code).category = s.openSection.category ∧
      (s.openSection.category.isSome = true →
        (s.inlineSection code).indent = some (s.openSection.indent.getD code.indent)) := by
  simp only [inlineSection, beq_iff_eq, h, if_false]
  cases hc : s.openSection.category with
  | none => simp [hc]
  | some category =>
    cases hi : s.openSection.indent with
    | none => simp
    | some width => simp [hc, hi]

theorem inlineSection_same (h : Line.splitInlineDoc line = some (code, doc))
    (reads : Line.leavesSection line = true ∨ s.openSection.SameAt line.indent o) :
    (s.inlineSection code).Same ((s.inSection o).inlineSection code) := by
  by_cases margin : code.indent = 0
  · simp only [inlineSection, margin, beq_self_eq_true, if_true]
    exact ⟨rfl, fun _ => rfl⟩
  · have same : s.openSection.SameAt code.indent o := by
      rw [Line.indent_of_splitInlineDoc h]
      refine reads.resolve_left fun leaves => margin ?_
      simp only [Line.leavesSection, h, Bool.and_eq_true, beq_iff_eq] at leaves
      exact leaves.1
    obtain ⟨category, indent⟩ := same
    obtain ⟨hc, hi⟩ := inlineSection_indented s margin
    obtain ⟨hc', hi'⟩ := inlineSection_indented (s.inSection o) margin
    refine ⟨hc.trans (category.trans hc'.symm), fun hsome => ?_⟩
    rw [hc] at hsome
    rw [hi hsome, hi' (category ▸ hsome), indent margin hsome]
    rfl

theorem inlineDoc_alike (h : Line.splitInlineDoc line = some (code, doc))
    (reads : Line.leavesSection line = true ∨ s.openSection.SameAt line.indent o) (number : Int) :
    Alike (s.inlineDoc code doc number) ((s.inSection o).inlineDoc code doc number) := by
  have category : (s.inSection o).lineCategory code = s.lineCategory code := by
    rcases reads with leaves | same
    · exact lineCategory_of_leaves h leaves
    · exact lineCategory_inSection same.1 code
  have dropped : (s.inSection o).dropPending number = (s.dropPending number).inSection o := by
    unfold dropPending
    split
    · next h => rw [if_pos (show s.pending.lines.isEmpty = true from h)]
    · next h =>
      rw [if_neg (show ¬ s.pending.lines.isEmpty = true from h)]
      rfl
  rw [inlineDoc_eq, inlineDoc_eq, category, dropped]
  exact alike_of_inSection (s := (s.dropPending number).inSection (s.inlineSection code))
    (f := fun t => t.declareLine code doc number (s.lineCategory code))
    (declareLine_inSection _ code doc number _) (inlineSection_same h reads)

theorem sectionLine_alike (reads : line.indent = 0 ∨ s.openSection.SameAt line.indent o)
    (number : Int) :
    ((s.inSection o).sectionLine line number).1 = (s.sectionLine line number).1 ∧
      Alike (s.sectionLine line number).2 ((s.inSection o).sectionLine line number).2 := by
  have refl (t : Scan) : Alike t t := ⟨t.openSection, rfl, rfl, fun _ => rfl⟩
  unfold sectionLine
  split
  · -- A line without indent closes both sections.
    unfold sectionStart
    split
    · exact ⟨rfl, refl _⟩
    · simp only
      split
      · exact ⟨rfl, refl _⟩
      · split
        · exact ⟨rfl, refl _⟩
        · exact ⟨rfl, refl _⟩
  · next hi =>
    obtain ⟨category, indent⟩ := reads.resolve_left (by simpa using hi)
    unfold sectionEntry
    simp only [show (s.inSection o).openSection = o from rfl, ← category]
    cases hc : s.openSection.category with
    | none => exact ⟨rfl, o, rfl, category, by simp [hc]⟩
    | some c =>
      have width := indent (by simpa using hi) (hc ▸ rfl)
      simp only [← width]
      split
      · exact ⟨rfl, refl _⟩
      · exact ⟨rfl, refl _⟩

/-- A line of code may be read in both sections: they are the same to all lines, or no signature
is open and they are the same to this line. -/
def Consents (s : Scan) (o : OpenSection) (line : Text) : Prop :=
  s.openSection.Same o ∨ Line.isQuiet line = false ∧ s.pending.lines = [] ∧
    (Line.leavesSection line = true ∨ s.openSection.SameAt line.indent o)

theorem Consents.reads (h : s.Consents o line) :
    Line.leavesSection line = true ∨ s.openSection.SameAt line.indent o :=
  h.elim (fun same => .inr (same.sameAt _)) fun h => h.2.2

theorem declarationLine_alike (h : s.Consents o line) (bare : Line.splitInlineDoc line = none)
    (number : Int) :
    Alike (s.declarationLine number line) ((s.inSection o).declarationLine number line) := by
  unfold declarationLine
  split
  · exact alike_of_inSection (s := s.inSection { s.openSection with category := none })
      (f := fun t => t.startDeclaration line number) (o := { o with category := none })
      (startDeclaration_inSection _ line number) ⟨rfl, nofun⟩
  · next routine =>
    split
    · next hp =>
      rw [if_pos (show (!(s.inSection o).pending.lines.isEmpty) = true from hp)]
      refine alike_of_inSection (f := fun t => t.continueDeclaration line)
        (continueDeclaration_inSection _ line) (h.resolve_right fun hr => ?_)
      simp [hr.2.1] at hp
    · next hp =>
      rw [if_neg (show ¬ (!(s.inSection o).pending.lines.isEmpty) = true from hp)]
      have reads : line.indent = 0 ∨ s.openSection.SameAt line.indent o := by
        refine h.reads.imp_left fun leaves => ?_
        simpa [Line.leavesSection, bare, routine] using leaves
      obtain ⟨handled, alike⟩ := sectionLine_alike reads number
      simp only [handled]
      split
      · obtain ⟨o', he, same⟩ := alike
        exact ⟨o', congrArg (·.startCapture line) he, same⟩
      · exact alike

theorem bodyLine_alike (h : s.Consents o line) (number : Int) :
    Alike (s.bodyLine number line) ((s.inSection o).bodyLine number line) := by
  cases quiet : Line.isQuiet line with
  | true =>
    have same : s.openSection.Same o := h.resolve_right fun hr => nomatch hr.1.symm.trans quiet
    exact alike_of_inSection (f := fun t => t.bodyLine number line)
      (bodyLine_inSection quiet s number) same
  | false =>
    have consents : (s.atMargin line).Consents o line := by
      unfold atMargin
      split <;> exact h
    simp only [Line.isQuiet, Bool.or_eq_false_iff] at quiet
    obtain ⟨⟨hb, hd⟩, imports⟩ := quiet
    rw [bodyLine_eq, bodyLine_eq, atMargin_inSection, if_neg (by simp [hb]), if_neg (by simp [hb])]
    unfold textLine
    rw [if_neg (by simp [hd]), if_neg (by simp [hd])]
    split
    · next hs => exact inlineDoc_alike hs consents.reads number
    · next bare =>
      have none_ : (s.atMargin line).importLine line.strip = none := by
        rw [← Option.not_isSome_iff_eq_none, importLine_isSome]
        simpa [bare] using imports
      rw [importLine_inSection, none_]
      exact declarationLine_alike consents bare number

/-! ## Runs in two sections -/

theorem openSection_of_fencedLine {taken : Bool} (h : s.fencedLine line = .ok (taken, s')) :
    s'.openSection = s.openSection := by
  have kept : s' = s'.inSection s.openSection :=
    (Prod.mk.inj (Except.ok.inj (h.symm.trans (fencedLine_inSection h s.openSection)))).2
  exact (congrArg Scan.openSection kept).trans rfl

theorem quiet_of_taken (h : s.fencedLine line = .ok (true, s')) : Line.isQuiet line = true := by
  cases hd : Line.isDoc line with
  | true => simp [Line.isQuiet, hd]
  | false => simp [fencedLine_of_code hd] at h

theorem plainLine_alike (hs : s.Sound) (hr : s.Reading) (h : s.Consents o line) (number : Int) :
    ∃ s' t', s.plainLine number line = .ok s' ∧ (s.inSection o).plainLine number line = .ok t' ∧
      Alike s' t' := by
  obtain ⟨taken, u, he, hm, -⟩ := fencedLine_reading hs hr line
  have kept := openSection_of_fencedLine he
  have he' := fencedLine_inSection he o
  cases taken with
  | true =>
    have same : s.openSection.Same o := h.resolve_right fun hn =>
      nomatch hn.1.symm.trans (quiet_of_taken he)
    exact ⟨u, _, plainLine_of_taken he, plainLine_of_taken he', o, rfl, kept ▸ same⟩
  | false =>
    have consents : u.Consents o line := by
      unfold Consents
      rwa [kept, (docMoves_frame hs hm).1]
    exact ⟨_, _, plainLine_of_refused he, plainLine_of_refused he', bodyLine_alike consents number⟩

/-- A line of code keeps two states alike, or makes them so. -/
theorem codeLine_alike (hs : s.Sound) (inCode : s.inCode = true) (line : Text)
    (h : s.openSection.Same o ∨ s.capture.active = false ∧ s.Consents o line) (number : Int) :
    ∃ s' t', s.codeLine number line = .ok s' ∧ (s.inSection o).codeLine number line = .ok t' ∧
      Alike s' t' := by
  have kept : (s.captured line).2.openSection = s.openSection :=
    openSection_of_inSection (f := fun t => (t.captured line).2) fun o => by
      rw [captured_inSection]
  rw [codeLine_eq, codeLine_eq, captured_inSection]
  cases hc : (s.captured line).1 with
  | true =>
    have same : s.openSection.Same o := h.resolve_right fun hn => by
      simp [captured_of_inactive hn.1] at hc
    exact ⟨_, _, rfl, rfl, o, rfl, kept ▸ same⟩
  | false =>
    refine plainLine_alike (captured_moves hs number line).2 (captured_reading inCode hc) ?_ number
    rcases h with same | ⟨inactive, consents⟩
    · exact .inl (kept ▸ same)
    · rwa [captured_of_inactive inactive]

theorem docLine_frame (hs : s.Sound) (idle : s.Idle) (pending : s.pending.lines = []) :
    (s.docLine line).pending.lines = [] ∧ (s.docLine line).Reading := by
  rw [docLine_eq]
  split
  · exact ⟨pending, idle.1, idle.2.2⟩
  · next kept =>
    have moves := takeDoc_moves hs.flushPending idle.flushPending (by simp) (by simpa using kept)
    obtain ⟨hp, hx, hi⟩ := docMoves_frame hs.flushPending moves
    refine ⟨by simp [hp], hi.trans idle.flushPending.1, ?_⟩
    rw [hx]
    exact idle.flushPending.2.2

theorem importLine_frame (idle : s.Idle) (h : s.importLine text = some s') :
    s'.pending.lines = [] ∧ s'.Reading := by
  unfold importLine at h
  split at h
  · cases h
    exact ⟨by simp [endDeclaration], idle.flushPending.1, idle.flushPending.2.2⟩
  · obtain ⟨bullet, -, h⟩ := Option.map_eq_some_iff.1 h
    cases h
    exact ⟨by simp [endDeclaration], idle.flushPending.1, idle.flushPending.2.2⟩

theorem bodyLine_frame (hs : s.Sound) (idle : s.Idle) (pending : s.pending.lines = [])
    (quiet : Line.isQuiet line = true) (number : Int) :
    (s.bodyLine number line).pending.lines = [] ∧ (s.bodyLine number line).Reading := by
  rw [bodyLine_eq]
  split
  · exact ⟨by simp [endDeclaration], idle.flushPending.1, idle.flushPending.2.2⟩
  · next hb =>
    have margin : (s.atMargin line).Sound ∧ (s.atMargin line).Idle ∧
        (s.atMargin line).pending.lines = [] := by
      unfold atMargin
      split
      · exact ⟨hs.accept, idle, pending⟩
      · exact ⟨hs, idle, pending⟩
    obtain ⟨hs', idle', pending'⟩ := margin
    unfold textLine
    split
    · exact docLine_frame hs' idle' pending'
    · next hd =>
      simp only [Line.isQuiet, hb, hd, Bool.false_or, Bool.and_eq_true, Option.isNone_iff_eq_none,
        ← importLine_isSome (s.atMargin line), Option.isSome_iff_exists] at quiet
      obtain ⟨bare, t, ht⟩ := quiet
      rw [bare, ht]
      exact importLine_frame idle' ht

/-- A quiet line keeps two states apart by the section only. -/
theorem codeLine_quiet (hs : s.Sound) (hr : s.Reading) (pending : s.pending.lines = [])
    (quiet : Line.isQuiet line = true) (number : Int) (o : OpenSection) :
    ∃ s', s.codeLine number line = .ok s' ∧
      (s.inSection o).codeLine number line = .ok (s'.inSection o) ∧
      s'.openSection = s.openSection ∧ s'.pending.lines = [] ∧ s'.Reading := by
  obtain ⟨taken, u, he, hm, idle⟩ := fencedLine_reading hs hr line
  obtain ⟨hp, hx, hi⟩ := docMoves_frame hs hm
  have kept := openSection_of_fencedLine he
  have he' := fencedLine_inSection he o
  rw [codeLine_eq, codeLine_eq, captured_inSection, captured_of_inactive hr.2]
  cases taken with
  | true =>
    refine ⟨u, plainLine_of_taken he, plainLine_of_taken he', kept, hp ▸ pending, ?_⟩
    exact ⟨hi.trans hr.1, hx ▸ hr.2⟩
  | false =>
    refine ⟨_, plainLine_of_refused he, ?_, ?_, ?_⟩
    · exact (plainLine_of_refused he').trans
        (congrArg Except.ok (bodyLine_inSection quiet u number o))
    · exact (openSection_of_inSection (f := fun t => t.bodyLine number line)
        (bodyLine_inSection quiet u number)).trans kept
    · exact bodyLine_frame (docMoves_sound hs hm) (idle rfl) (hp ▸ pending) quiet number

/-! ## Outcomes -/

/-- The outline that a scan comes to over the rest of a source. -/
def outcome (s : Scan) (first : Nat) (ls : List Text) : Except Failure Outline :=
  (s.lines first ls).map (·.finish.outline)

variable {first : Nat} {ls : List Text}

theorem outcome_cons (h : s.line first line = .ok s') :
    s.outcome first (line :: ls) = s'.outcome (first + 1) ls := by
  simp only [outcome, lines, h]

theorem outcome_guard (h : Line.isMainGuard line = true) (s : Scan) (first : Nat)
    (ls : List Text) : s.outcome first (line :: ls) = s.outcome (first + 1) ls :=
  outcome_cons (by simp [Scan.line, h])

theorem line_of_code (inCode : s.inCode = true) (h : Line.isMainGuard line = false) :
    s.line number line = s.codeLine number line := by
  simp [Scan.line, inCode, h]

theorem codeLine_sound (hs : s.Sound) (inCode : s.inCode = true) (hn : 1 ≤ number)
    (h : s.codeLine number line = .ok s') : s'.Sound ∧ s'.inCode = true := by
  obtain ⟨t, he, hm⟩ := codeLine_moves hs inCode number line
  obtain rfl := Except.ok.inj (h.symm.trans he)
  exact ⟨hm.sound hn hs, (hm.extends hn inCode hs (extends_nil s)).2⟩

theorem Alike.outcome {t : Scan} (hs : s.Sound) (inCode : s.inCode = true) (h : Alike s t)
    (hn : 1 ≤ first) : t.outcome first ls = s.outcome first ls := by
  induction ls generalizing s t first with
  | nil =>
    obtain ⟨o, rfl, -⟩ := h
    show Except.ok (s.inSection o).finish.outline = .ok s.finish.outline
    rw [finish_inSection]
    rfl
  | cons line rest ih =>
    cases hg : Line.isMainGuard line with
    | true =>
      rw [outcome_guard hg, outcome_guard hg]
      exact ih hs inCode h (by omega)
    | false =>
      obtain ⟨o, rfl, same⟩ := h
      obtain ⟨s', t', he, he', alike⟩ := codeLine_alike hs inCode line (.inl same) (first : Int)
      obtain ⟨hs', inCode'⟩ := codeLine_sound hs inCode (by omega) he
      rw [outcome_cons ((line_of_code inCode hg).trans he),
        outcome_cons ((line_of_code (s := s.inSection o) inCode hg).trans he')]
      exact ih hs' inCode' alike (by omega)

/-- **The section makes no difference** if the next line of code leaves it, or finds the same. -/
theorem outcome_inSection (hs : s.Sound) (hr : s.Reading) (pending : s.pending.lines = [])
    (hn : 1 ≤ first)
    (next : ∀ line ∈ ls.find? Line.isCode, Line.leavesSection line = true ∨
      s.openSection.SameAt line.indent o) :
    (s.inSection o).outcome first ls = s.outcome first ls := by
  induction ls generalizing s first with
  | nil =>
    show Except.ok (s.inSection o).finish.outline = .ok s.finish.outline
    rw [finish_inSection]
    rfl
  | cons line rest ih =>
    cases hg : Line.isMainGuard line with
    | true =>
      rw [outcome_guard hg, outcome_guard hg]
      rw [List.find?_cons_of_neg (by simp [Line.isCode, hg])] at next
      exact ih hs hr pending (by omega) next
    | false =>
      cases quiet : Line.isQuiet line with
      | true =>
        rw [List.find?_cons_of_neg (by simp [Line.isCode, quiet])] at next
        obtain ⟨s', he, he', kept, pending', hr'⟩ := codeLine_quiet hs hr pending quiet
          (first : Int) o
        obtain ⟨hs', -⟩ := codeLine_sound hs hr.1 (by omega) he
        rw [outcome_cons ((line_of_code hr.1 hg).trans he),
          outcome_cons ((line_of_code (s := s.inSection o) hr.1 hg).trans he')]
        exact ih hs' hr' pending' (by omega) (kept ▸ next)
      | false =>
        rw [List.find?_cons_of_pos (by simp [Line.isCode, quiet, hg])] at next
        have consents : s.Consents o line := .inr ⟨quiet, pending, next line rfl⟩
        obtain ⟨s', t', he, he', alike⟩ := codeLine_alike hs hr.1 line
          (.inr ⟨hr.2, consents⟩) (first : Int)
        obtain ⟨hs', inCode'⟩ := codeLine_sound hs hr.1 (by omega) he
        rw [outcome_cons ((line_of_code hr.1 hg).trans he),
          outcome_cons ((line_of_code (s := s.inSection o) hr.1 hg).trans he')]
        exact alike.outcome hs' inCode' (by omega)

/-! ## Taking doc lines or not -/

/-- The state with doc lines taken. -/
def accepting (s : Scan) : Scan := { s with admitting := true }

/-- The second state is the first one, but may take doc lines where that does not. -/
def Readmits (s t : Scan) : Prop := t = s ∨ t = s.accepting

theorem Readmits.map {t : Scan} {f : Scan → Scan} (h : Readmits s t)
    (hf : ∀ s, Readmits (f s) (f s.accepting)) : Readmits (f s) (f t) := by
  rcases h with rfl | rfl
  · exact .inl rfl
  · exact hf s

theorem accepting_of_admitting (h : s.admitting = true) : s.accepting = s := by
  simp [accepting, ← h]

/-- Whether doc lines are taken is decided anew with each declaration. -/
theorem register_accepting (s : Scan) (d : Declaration) :
    s.accepting.register d = s.register d := by
  unfold register
  split
  · next h => exact (if_pos h).symm
  · next h => exact (if_neg h).symm

theorem flushPending_readmits (s : Scan) : Readmits s.flushPending s.accepting.flushPending := by
  cases hp : s.pending.lines with
  | nil =>
    rw [flushPending_of_empty hp, flushPending_of_empty (s := s.accepting) hp]
    exact .inr rfl
  | cons first rest =>
    refine .inl ?_
    simp only [flushPending, hp, show s.accepting.pending.lines = first :: rest from hp]
    exact register_accepting { s with pending := { s.pending with lines := [] } } _

theorem leave_readmits (s : Scan) :
    Readmits s.flushPending.endDeclaration s.accepting.flushPending.endDeclaration :=
  (flushPending_readmits s).map fun _ => .inr rfl

theorem declareLine_accepting (s : Scan) (code doc : Text) (number : Int) (category : Category) :
    s.accepting.declareLine code doc number category = s.declareLine code doc number category := by
  rw [declareLine_eq, declareLine_eq]
  exact register_accepting s.endDeclaration _

theorem inlineDoc_accepting (s : Scan) (code doc : Text) (number : Int) :
    s.accepting.inlineDoc code doc number = s.inlineDoc code doc number := by
  have dropped : s.accepting.dropPending number = (s.dropPending number).accepting := by
    unfold dropPending
    split
    · next h => rw [if_pos (show s.pending.lines.isEmpty = true from h)]
    · next h =>
      rw [if_neg (show ¬ s.pending.lines.isEmpty = true from h)]
      rfl
  rw [inlineDoc_eq, inlineDoc_eq, dropped]
  exact declareLine_accepting ((s.dropPending number).inSection (s.inlineSection code)) code doc
    number (s.lineCategory code)

theorem importLine_accepting (s : Scan) (text : Text) :
    s.accepting.importLine text = s.importLine text := by
  have listed : s.accepting.flushPending.endDeclaration.accepting =
      s.flushPending.endDeclaration.accepting := by
    rcases leave_readmits s with h | h <;> rw [h]
    rfl
  simp only [importLine]
  split
  · next bullet _ =>
    exact congrArg (fun t : Scan => some { t with outline := { t.outline with
      imports := t.outline.imports ++ [bullet] } }) listed
  · refine congrArg (Option.map · _) (funext fun bullet => ?_)
    exact congrArg (fun t : Scan => { t with outline := { t.outline with
      includes := t.outline.includes ++ [bullet] } }) listed

theorem startDeclaration_readmits (s : Scan) (line : Text) (number : Int) :
    Readmits (s.startDeclaration line number) (s.accepting.startDeclaration line number) := by
  have started : Readmits
      { s.flushPending.endDeclaration with pending := { lines := [line], lineNumber := number } }
      { s.accepting.flushPending.endDeclaration with
        pending := { lines := [line], lineNumber := number } } :=
    (leave_readmits s).map
      (f := fun t => { t with pending := { lines := [line], lineNumber := number } })
      fun _ => .inr rfl
  simp only [startDeclaration]
  split
  · exact started.map flushPending_readmits
  · exact started

theorem continueDeclaration_readmits (s : Scan) (line : Text) :
    Readmits (s.continueDeclaration line) (s.accepting.continueDeclaration line) := by
  simp only [continueDeclaration]
  split
  · exact flushPending_readmits
      { s with pending := { s.pending with lines := s.pending.lines ++ [line] } }
  · exact .inr rfl

theorem sectionLine_readmits (s : Scan) (line : Text) (number : Int) :
    (s.accepting.sectionLine line number).1 = (s.sectionLine line number).1 ∧
      Readmits (s.sectionLine line number).2 (s.accepting.sectionLine line number).2 := by
  unfold sectionLine
  split
  · unfold sectionStart
    split
    · exact ⟨rfl, .inr rfl⟩
    · simp only
      split
      · exact ⟨rfl, .inr rfl⟩
      · split
        · exact ⟨rfl, .inl (declareLine_accepting (s.endDeclaration.inSection {}) _ [] number _)⟩
        · exact ⟨rfl, .inr rfl⟩
  · unfold sectionEntry
    simp only [show s.accepting.openSection = s.openSection from rfl]
    split
    · exact ⟨rfl, .inr rfl⟩
    · split
      · exact ⟨rfl, .inl (declareLine_accepting (s.inSection { s.openSection with
          indent := some (s.openSection.indent.getD line.indent) }) _ [] number _)⟩
      · exact ⟨rfl, .inr rfl⟩

theorem declarationLine_readmits (s : Scan) (number : Int) (line : Text) :
    Readmits (s.declarationLine number line) (s.accepting.declarationLine number line) := by
  unfold declarationLine
  split
  · exact startDeclaration_readmits (s.inSection { s.openSection with category := none }) line
      number
  · split
    · next hp =>
      rw [if_pos (show (!s.accepting.pending.lines.isEmpty) = true from hp)]
      exact continueDeclaration_readmits s line
    · next hp =>
      rw [if_neg (show ¬ (!s.accepting.pending.lines.isEmpty) = true from hp)]
      obtain ⟨handled, readmits⟩ := sectionLine_readmits s line number
      simp only [handled]
      split
      · exact readmits.map (f := fun t => t.startCapture line) fun _ => .inr rfl
      · exact readmits

theorem textLine_readmits (hd : Line.isDoc line = false) (s : Scan) (number : Int) :
    Readmits (s.textLine number line) (s.accepting.textLine number line) := by
  unfold textLine
  rw [if_neg (by simp [hd]), if_neg (by simp [hd])]
  split
  · exact .inl (inlineDoc_accepting s _ _ number)
  · rw [importLine_accepting]
    split
    · exact .inl rfl
    · exact declarationLine_readmits s number line

/-- A line without indent makes an end of the difference. -/
theorem bodyLine_accepting (ht : line.isBlankText = false) (margin : line.indent = 0) (s : Scan)
    (number : Int) : s.accepting.bodyLine number line = s.bodyLine number line := by
  rw [bodyLine_eq, bodyLine_eq, if_neg (by simp [ht]), if_neg (by simp [ht])]
  simp [atMargin, margin, accepting]

theorem bodyLine_readmits (hd : Line.isDoc line = false) (s : Scan) (number : Int) :
    Readmits (s.bodyLine number line) (s.accepting.bodyLine number line) := by
  cases hb : line.isBlankText with
  | true =>
    rw [bodyLine_eq, bodyLine_eq, if_pos hb, if_pos hb]
    exact leave_readmits s
  | false =>
    by_cases margin : line.indent = 0
    · exact .inl (bodyLine_accepting hb margin s number)
    · rw [bodyLine_eq, bodyLine_eq, if_neg (by simp [hb]), if_neg (by simp [hb])]
      simp only [atMargin, beq_iff_eq, margin, if_false]
      exact textLine_readmits hd s number

theorem captured_accepting (hc : s.current = none) (line : Text) :
    s.accepting.captured line = ((s.captured line).1, (s.captured line).2.accepting) := by
  simp only [captured, captureLine, hc, show s.accepting.current = none from hc]
  split
  · next ha =>
    rw [if_pos (show s.capture.active = true from ha)]
    by_cases he : (!line.isBlankText && decide (line.indent ≤ s.capture.indent)) = true
    · exact (if_pos he).trans (by rw [if_pos he]; rfl)
    · exact (if_neg he).trans (by rw [if_neg he])
  · next ha => rw [if_neg (show ¬ s.capture.active = true from ha)]

theorem captured_unindented (h : Line.isUnindented line = true) : (s.captured line).1 = false := by
  simp only [Line.isUnindented, Bool.and_eq_true, Bool.not_eq_true', beq_iff_eq] at h
  unfold captured
  split
  · simp [captureLine, h.1.1, h.1.2]
  · rfl

/-- A line of code that is no doc line, or has no indent, keeps the difference or ends it. -/
theorem codeLine_readmits (hs : s.Sound) (silent : s.admitting = false) (number : Int)
    (h : Line.isDoc line = false ∨ Line.isUnindented line = true) :
    ∃ s' t', s.codeLine number line = .ok s' ∧ s.accepting.codeLine number line = .ok t' ∧
      Readmits s' t' ∧ (Line.isUnindented line = true → t' = s') := by
  have current := hs.current_of_silent silent
  have closed := hs.closed_of_silent silent
  rw [codeLine_eq, codeLine_eq, captured_accepting current]
  cases hc : (s.captured line).1 with
  | true =>
    refine ⟨_, _, rfl, rfl, .inr rfl, fun hu => ?_⟩
    rw [captured_unindented hu] at hc
    cases hc
  | false =>
    obtain ⟨capture, same⟩ := captured_refused hc
    rw [same]
    have ended (t : Scan) (ht : t.fence.isOpen = false) :
        t.plainLine number line = .ok (t.bodyLine number line) :=
      plainLine_of_refused (fencedLine_of_closed ht)
    refine ⟨_, _, ended { s with capture } closed, ended (accepting { s with capture }) closed, ?_⟩
    have unindented (hu : Line.isUnindented line = true) :
        (accepting { s with capture }).bodyLine number line =
          bodyLine { s with capture } number line := by
      simp only [Line.isUnindented, Bool.and_eq_true, Bool.not_eq_true', beq_iff_eq] at hu
      exact bodyLine_accepting hu.1.1 hu.1.2 _ number
    rcases h with hd | hu
    · exact ⟨bodyLine_readmits hd _ number, unindented⟩
    · exact ⟨.inl (unindented hu), unindented⟩

theorem finish_of_closed (inCode : s.inCode = true) (closed : s.fence.isOpen = false) :
    s.finish = s.flushPending.endDeclaration := by
  simp only [finish, inCode, if_true]
  rw [closeFence_of_closed closed]

/-- **Taking doc lines makes no difference** where there are none up to the next line without
indent. -/
theorem outcome_accepting (hs : s.Sound) (hn : 1 ≤ first)
    (docs : ∀ line ∈ ls.takeWhile (!Line.isUnindented ·), Line.isDoc line = false) :
    s.accepting.outcome first ls = s.outcome first ls := by
  induction ls generalizing s first with
  | nil =>
    cases silent : s.admitting with
    | true => rw [accepting_of_admitting silent]
    | false =>
      have closed := hs.closed_of_silent silent
      have inCode := hs.inCode_of_silent silent
      show Except.ok s.accepting.finish.outline = .ok s.finish.outline
      rw [finish_of_closed inCode closed, finish_of_closed (s := s.accepting) inCode closed]
      rcases leave_readmits s with h | h <;> rw [h]
      rfl
  | cons line rest ih =>
    cases silent : s.admitting with
    | true => rw [accepting_of_admitting silent]
    | false =>
      have inCode := hs.inCode_of_silent silent
      cases hg : Line.isMainGuard line with
      | true =>
        rw [outcome_guard hg, outcome_guard hg]
        rw [List.takeWhile_cons_of_pos (by simp [Line.isUnindented, hg])] at docs
        exact ih hs (by omega) fun l hl => docs l (List.mem_cons_of_mem _ hl)
      | false =>
        have hd : Line.isDoc line = false ∨ Line.isUnindented line = true := by
          cases hu : Line.isUnindented line with
          | true => exact .inr rfl
          | false =>
            rw [List.takeWhile_cons_of_pos (by simp [hu])] at docs
            exact .inl (docs line List.mem_cons_self)
        obtain ⟨s', t', he, he', readmits, same⟩ := codeLine_readmits hs silent (first : Int) hd
        obtain ⟨hs', -⟩ := codeLine_sound hs inCode (by omega) he
        rw [outcome_cons ((line_of_code inCode hg).trans he),
          outcome_cons ((line_of_code (s := s.accepting) inCode hg).trans he')]
        cases hu : Line.isUnindented line with
        | true => rw [same hu]
        | false =>
          rw [List.takeWhile_cons_of_pos (by simp [hu])] at docs
          rcases readmits with rfl | rfl
          · rfl
          · exact ih hs' (by omega) fun l hl => docs l (List.mem_cons_of_mem _ hl)

end Scan

end NimMarkdown
