import NimMarkdown.Proofs.Fences
import NimMarkdown.Proofs.ModuleDoc

/-!
# Notes to the authors

A doc text that begins with `TODO` is a note to the authors. `todoNotes` are the
notes among lines, outside of code blocks. In the code a note is dropped wherever it
could be written, beside an element as well as in a doc comment, so no comment of
a declaration has any (`Move.noted`). The doc comment of the module is not read for
notes: those of the top matter are texts of it (`todoNotes_docItems`). Together,
`outline_todoNotes`.
-/

namespace NimMarkdown

open scoped List

/-- The lines outside of code blocks; `isOpen` says whether the lines begin inside of one. -/
def outsideBlocks : (isOpen : Bool) → List Text → List Text
  | _, [] => []
  | isOpen, line :: rest =>
    if isFenceLine line then outsideBlocks (!isOpen) rest
    else if isOpen then outsideBlocks isOpen rest
    else line :: outsideBlocks isOpen rest

/-- The notes to the authors among the lines outside of code blocks. -/
def todoNotes (lines : List Text) : List Text := (outsideBlocks false lines).filter Line.isTodo

section

variable {xs ys : List Text} {line : Text} {isOpen b : Bool}

theorem outsideBlocks_append (h : readFences isOpen xs = some b) (ys : List Text) :
    outsideBlocks isOpen (xs ++ ys) = outsideBlocks isOpen xs ++ outsideBlocks b ys := by
  induction xs generalizing isOpen with
  | nil =>
    cases h
    rfl
  | cons x xs ih =>
    rw [readFences] at h
    rw [List.cons_append, outsideBlocks, outsideBlocks]
    split at h
    · next hx =>
      split at h
      · rw [if_pos hx, if_pos hx, ih h]
      · cases h
    · next hx =>
      rw [if_neg hx, if_neg hx, ih h]
      split
      · rfl
      · rw [List.cons_append]

/-- Inside of a block there is nothing outside. -/
theorem outsideBlocks_inside (h : ∀ l ∈ xs, isFenceLine l = false) :
    outsideBlocks true xs = [] := by
  induction xs with
  | nil => rfl
  | cons x xs ih =>
    rw [outsideBlocks, h x List.mem_cons_self]
    exact ih fun l hl => h l (List.mem_cons_of_mem _ hl)

theorem outsideBlocks_plain (h : isFenceLine line = false) (ys : List Text) :
    outsideBlocks false (line :: ys) = line :: outsideBlocks false ys := by
  rw [outsideBlocks, h]
  rfl

theorem outsideBlocks_fence (h : isFenceLine line = true) (isOpen : Bool) (ys : List Text) :
    outsideBlocks isOpen (line :: ys) = outsideBlocks (!isOpen) ys := by
  rw [outsideBlocks, if_pos h]

theorem isTodo_cons {c : Char} (blank : isBlank c = false) (hc : c ≠ 'T') (rest : Text) :
    Line.isTodo (c :: rest) = false := by
  simp [Line.isTodo, Text.stripLeft_of_text blank, Text.startsWith, List.isPrefixOf, Ne.symm hc]

theorem isTodo_heading {level : Nat} (h : level ≠ 0) (text : Text) :
    Line.isTodo (headingLine level text) = false := by
  obtain ⟨n, rfl⟩ := Nat.exists_eq_succ_of_ne_zero h
  exact isTodo_cons (by decide) (by decide) _

theorem todoNotes_append (h : readFences false xs = some b) (ys : List Text) :
    todoNotes (xs ++ ys) = todoNotes xs ++ (outsideBlocks b ys).filter Line.isTodo := by
  rw [todoNotes, outsideBlocks_append h, List.filter_append]
  rfl

theorem todoNotes_plain (h : isFenceLine line = false) (ys : List Text) :
    todoNotes (line :: ys) = (if Line.isTodo line then [line] else []) ++ todoNotes ys := by
  rw [todoNotes, outsideBlocks_plain h, List.filter_cons]
  split <;> rfl

end

/-! ## The doc comment of the module -/

section

variable {ts : List Text}

/-- A code block closes behind its body, and no more than an empty line comes with it. -/
theorem outsideBlocks_blockRest (width : Nat) (h : ∀ t ∈ ts, Unmarked t) (ys : List Text) :
    (outsideBlocks true ((blockRest width ts).1 ++ ys)).filter Line.isTodo = todoNotes ys := by
  have closed (tail : List Text) :
      outsideBlocks true (fenceMark :: tail) = outsideBlocks false tail :=
    outsideBlocks_fence isFenceLine_mark true tail
  have empty : todoNotes ([] :: ys) = todoNotes ys := todoNotes_plain rfl ys
  have inside {l : Text} (hl : isFenceLine l = false) (tail : List Text) :
      outsideBlocks true (l :: tail) = outsideBlocks true tail := by
    rw [outsideBlocks, hl]
    rfl
  fun_induction blockRest width ts with
  | case1 => exact congrArg _ (closed ys)
  | case2 t ts _ ih =>
    have plain : isFenceLine (dedent width t) = false :=
      ((h t List.mem_cons_self).trimmed _).not_fence
    rw [List.cons_append, inside plain]
    exact ih fun l hl => h l (List.mem_cons_of_mem _ hl)
  | case3 => exact (congrArg _ (closed ([] :: ys))).trans empty
  | case4 t _ _ u rest _ ih =>
    rw [List.cons_append, inside rfl]
    exact ih fun l hl => h l (List.mem_cons_of_mem _ hl)
  | case5 => exact congrArg _ (closed ys)
  | case6 => exact (congrArg _ (closed ([] :: ys))).trans empty
  | case7 => exact congrArg _ (closed ys)

theorem outsideBlocks_block (h : ∀ t ∈ ts, Unmarked t) (ys : List Text) :
    (outsideBlocks true ((block ts).1 ++ ys)).filter Line.isTodo = todoNotes ys := by
  have closed : outsideBlocks true ([fenceMark] ++ ys) = outsideBlocks false ys :=
    outsideBlocks_fence isFenceLine_mark true ys
  have dropped := List.dropWhile_suffix Text.isBlankText (l := ts)
  unfold block
  split
  · exact congrArg _ closed
  · next t rest he =>
    rw [he] at dropped
    split
    · exact outsideBlocks_blockRest _ (fun l hl => h l (dropped.subset hl)) ys
    · exact congrArg _ closed

/-- The notes of a doc comment are texts of it, in their order. -/
theorem todoNotes_docItems (ts : List Text) (h : ∀ t ∈ ts, Unmarked t) :
    todoNotes ((docItems ts).map DocItem.line) <+ ts := by
  fun_induction docItems ts with
  | case1 => exact List.Sublist.refl _
  | case2 t ts _ ih =>
    have rest := block_suffix ts
    have opens : isFenceLine (if Line.isPlainBlock t then fenceMark else sourceFence) = true := by
      split
      · exact isFenceLine_mark
      · exact isFenceLine_source
    have notes : todoNotes ((docItems (block ts).2).map DocItem.line) <+ (block ts).2 :=
      ih fun l hl => h l (List.mem_cons_of_mem _ (rest.subset hl))
    have behind : ∀ l ∈ ts, Unmarked l := fun l hl => h l (List.mem_cons_of_mem _ hl)
    rw [List.map_cons, List.map_append, List.map_map, DocItem.map_line_text, todoNotes,
      DocItem.line, outsideBlocks_fence opens, Bool.not_false, outsideBlocks_block behind]
    exact notes.trans (rest.sublist.trans (List.sublist_cons_self t ts))
  | case3 t _ =>
    have plain : isFenceLine t = false := (h t List.mem_cons_self).not_fence
    rw [List.map_singleton, DocItem.line, todoNotes_plain plain]
    split
    · exact List.Sublist.refl _
    · exact List.nil_sublist _
  | case4 t _ u rest hu ih =>
    have notes := ih fun l hl => h l (List.mem_cons_of_mem _ (List.mem_cons_of_mem _ hl))
    rw [List.map_cons, DocItem.line, todoNotes_plain (isFenceLine_heading _ _),
      isTodo_heading hu.1]
    exact notes.trans ((List.sublist_cons_self u rest).trans (List.sublist_cons_self t _))
  | case5 t _ u rest _ ih =>
    have notes := ih fun l hl => h l (List.mem_cons_of_mem _ hl)
    rw [List.map_cons, DocItem.line, todoNotes_plain (h t List.mem_cons_self).not_fence]
    split
    · exact notes.cons_cons t
    · exact notes.cons t

end

/-- The texts that the top matter of a source is made of: of the copyright notes behind the first
one, and of the doc comment of the module. -/
def moduleTexts (source : List Text) : List Text :=
  let ls := source.filter (!Line.isMainGuard ·)
  (copyrightLines ls).tail.map Line.commentText ++ moduleDocTexts ls

theorem mem_moduleTexts {source : List Text} {t : Text} (h : t ∈ moduleTexts source) :
    ∃ line ∈ source, t = Line.commentText line ∨ t = Line.docText line := by
  rcases List.mem_append.1 h with h | h
  · obtain ⟨line, hl, rfl⟩ := List.mem_map.1 h
    have kept := (List.mem_filter.1 (List.mem_of_mem_tail hl)).1
    have read := (List.takeWhile_prefix _).subset kept
    exact ⟨line, (List.mem_filter.1 read).1, .inl rfl⟩
  · unfold moduleDocTexts docTextsFrom at h
    split at h
    · obtain ⟨line, hl, rfl⟩ := List.mem_map.1 h
      have kept := (List.takeWhile_prefix _).subset (List.mem_filter.1 hl).1
      have read := (List.dropWhile_suffix _).subset kept
      exact ⟨line, (List.mem_filter.1 read).1, .inr rfl⟩
    · cases h

theorem todoNotes_topMatterOf {source : List Text} (h : ∀ line ∈ source, Unmarked line) :
    todoNotes (topMatterOf source) <+ moduleTexts source := by
  have unmarked : ∀ t ∈ moduleTexts source, Unmarked t := by
    intro t ht
    obtain ⟨line, hl, rfl | rfl⟩ := mem_moduleTexts ht
    · exact (h line hl).part (Line.commentText_part line)
    · exact (h line hl).part (Line.docText_part line)
  have apart (notes rest : List Text) :
      todoNotes (copyrightNote notes ++ rest) = todoNotes rest := by
    cases notes with
    | nil => rfl
    | cons first more =>
      have star (t : Text) : Line.isTodo ('*' :: t) = false :=
        isTodo_cons (by decide) (by decide) t
      rw [copyrightNote, List.cons_append, todoNotes_plain (isFenceLine_cons (by decide) _), star]
      exact todoNotes_plain rfl rest
  exact (apart _ _).symm ▸ todoNotes_docItems _ unmarked

/-! ## The code -/

namespace Scan

variable {s s' : Scan} {text line : Text} {number : Int} {place : Place} {notes : List Text}

/-- No comment has a note, and those of the top matter are among the given ones. -/
def Noted (s : Scan) (notes : List Text) : Prop :=
  ∀ place, s.outline.Has place →
    todoNotes (s.outline.linesAt place) <+ if place = .topMatter then notes else []

theorem Noted.of_lines (h : s.Noted notes)
    (has : ∀ place, s'.outline.Has place → s.outline.Has place)
    (lines : ∀ place, s'.outline.linesAt place = s.outline.linesAt place) : s'.Noted notes := by
  intro place hp
  rw [lines]
  exact h place (has place hp)

/-- A change at a place that brings no note there. -/
theorem Noted.edit (h : s.Noted notes) (hp : s.outline.Has place) {f : List Text → List Text}
    (here : todoNotes (f (s.outline.linesAt place)) <+ todoNotes (s.outline.linesAt place))
    (fence : Fence) : Noted { s.edit place f with fence } notes := by
  intro other ho
  have ho' : s.outline.Has other := Outline.has_of_heads Outline.heads_modifyLines.symm ho
  show todoNotes ((s.outline.modifyLines place f).linesAt other) <+ _
  rw [Outline.linesAt_modifyLines hp]
  split
  · next heq =>
    subst heq
    exact here.trans (h other ho')
  · exact h other ho'

theorem Noted.append (h : s.Noted notes) (hf : s.Fenced) (hp : s.outline.Has place)
    {ls : List Text} (quiet : (outsideBlocks (s.openAt place) ls).filter Line.isTodo = [])
    (fence : Fence) : Noted { s.edit place (· ++ ls) with fence } notes := by
  refine h.edit hp ?_ fence
  rw [todoNotes_append (hf.places place hp), quiet, List.append_nil]

theorem Noted.add (h : s.Noted notes) {d : Declaration} (hd : todoNotes d.comment = []) :
    Noted { s with outline := s.outline.add d } notes := by
  intro place hp
  rcases Outline.linesAt_add_cases hp with ⟨hp', hl⟩ | ⟨-, hl⟩ <;> rw [hl]
  · exact h place hp'
  · exact hd.symm ▸ List.nil_sublist _

theorem Noted.register (h : s.Noted notes) {d : Declaration} (hd : todoNotes d.comment = []) :
    (s.register d).Noted notes := by
  unfold Scan.register
  split
  · exact h
  · exact h.add hd

theorem Noted.flushPending (h : s.Noted notes) : s.flushPending.Noted notes := by
  unfold Scan.flushPending
  split
  · exact h
  · exact Noted.register (s := { s with pending := { s.pending with lines := [] } }) h rfl

theorem Noted.closeFence (h : s.Noted notes) (hs : s.Sound) (hf : s.Fenced) :
    s.closeFence.Noted notes := by
  rcases hs.closeFence_cases with ⟨-, he⟩ | ⟨place, ho, hp, at_, he⟩ <;> rw [he]
  · exact h
  · refine h.append hf (hs.has_docPlace at_) ?_ _
    have isOpen : s.openAt place = true := by simp [openAt, ho, hp]
    rw [isOpen, Fence.closing]
    split <;> rfl

theorem Noted.commentPlace (h : s.Noted notes) (hf : s.Fenced) (free : s.Free)
    (hc : s.current = none) (hn : s.narrative = none) : s.commentPlace.2.Noted notes := by
  simp only [Scan.commentPlace, hc, hn]
  split
  · split
    · refine h.append hf (show s.outline.Has .topMatter from trivial) ?_ s.fence
      rw [openAt_of_closed free.1]
      rfl
    · exact h
  · exact h.add rfl

/-- A heading is no note, whatever the line was that it takes the place of. -/
theorem todoNotes_heading {lines : List Text} {above : Text} {level : Nat} {b : Bool}
    (hr : readFences false lines = some b) (hl : lines.getLast? = some above)
    (ha : isFenceLine above = false) (hlevel : level ≠ 0) :
    todoNotes (lines.dropLast ++ [headingLine level above]) <+ todoNotes lines := by
  obtain ⟨before, rfl⟩ := List.getLast?_eq_some_iff.1 hl
  rw [readFences_append_plain (plain_singleton ha)] at hr
  rw [List.dropLast_concat, todoNotes_append hr, todoNotes_append hr]
  refine List.Sublist.append_left ?_ _
  rw [outsideBlocks, isFenceLine_heading]
  cases b with
  | true => exact List.nil_sublist _
  | false =>
    have quiet : Line.isTodo (headingLine level above) = false := isTodo_heading hlevel above
    simp [outsideBlocks, quiet]

theorem DocMove.noted (ht : Unmarked text) (hs : s.Sound) (hf : s.Fenced) (h : s.Noted notes)
    (hm : DocMove text s s') : s'.Noted notes := by
  cases hm with
  | @openFence place free at_ =>
    rw [openFence_eq]
    refine h.append hf (hs.has_docPlace at_) ?_ _
    rw [openAt_of_closed free.1]
    split <;> rfl
  | closeFence => exact h.closeFence hs hf
  | holdBlank | dropBlank => exact h
  | @writeFenced place ho hp =>
    rw [writeFenced_eq]
    refine Noted.append (s := s.indented _) h { hf with }
      (hs.has_docPlace (hs.docPlace_of_open ho hp)) ?_ _
    have isOpen : openAt (s.indented (s.fence.indent.getD text.indent)) place = true := by
      simp [openAt, indented, ho, hp]
    rw [isOpen, outsideBlocks_inside, List.filter_nil]
    intro l hl
    rcases List.mem_append.1 hl with hl | hl
    · unfold Fence.resuming at hl
      split at hl
      · exact plain_singleton rfl l hl
      · cases hl
    · exact plain_singleton (ht.trimmed _).not_fence l hl
  | narrative free _ hc hn => exact h.commentPlace hf free hc hn
  | @write place free _ at_ _ kept =>
    have has := hs.has_docPlace at_
    rcases docTextAt_cases s place text with he | he | ⟨above, level, hl, -, ha, hn, he⟩ <;> rw [he]
    · exact h
    · refine h.append hf has ?_ s.fence
      rw [openAt_of_closed free.1, outsideBlocks_plain ht.not_fence]
      simp [kept, outsideBlocks]
    · exact h.edit has (todoNotes_heading (hf.places place has) hl ha hn) s.fence

theorem Noted.captureLine (h : s.Noted notes) (line : Text) :
    (s.captureLine line).2.Noted notes := by
  have modified {t : Scan} (index : Nat) {g : Declaration → Declaration}
      (ht : t.outline = s.outline) (hg : ∀ d, (g d).comment = d.comment) :
      Noted { t with outline := t.outline.modify index g } notes := by
    refine h.of_lines (fun place hp => ?_) fun place => ?_
    · cases place with
      | topMatter => trivial
      | comment i => simpa [Outline.Has, Outline.modify, ht] using hp
    · exact (Outline.linesAt_modify _ index hg place).trans (ht ▸ rfl)
  unfold Scan.captureLine
  split
  · exact h
  · split
    · exact h
    · next index _ =>
      split
      · refine modified (t := s) index rfl fun d => ?_
        split <;> rfl
      · exact modified (t := { s with capture := _ }) index rfl fun _ => rfl

/-- In the code no move writes a note. -/
theorem Move.noted (hl : Unmarked line) (hi : s.inCode = true) (hs : s.Sound) (hf : s.Fenced)
    (h : s.Noted notes) (hm : Move number line s s') : s'.Noted notes := by
  cases hm with
  | doc ht hm =>
    refine hm.noted ?_ hs hf h
    rcases ht with rfl | rfl
    · exact hl.part (Line.docText_part line)
    · exact hl.part (Line.commentText_part line)
  | beginDoc top | copyright top | commitHeld top | hold top | headHeld top | enterCode top =>
    simp [hi] at top
  | flush => exact h.flushPending
  | @declare code doc category =>
    refine h.register ?_
    simp only [lineDeclaration]
    split
    · rfl
    · next kept =>
      have quiet : Line.isTodo doc = false := by simp_all
      cases hd : isFenceLine doc <;> simp [todoNotes, outsideBlocks, hd, quiet]
  | capture => exact h.captureLine line
  | endDeclaration | accept | enterSection | start | extend | replace | listImport | listInclude |
      startCapture => exact h.of_lines (fun _ => id) fun _ => rfl

/-- Where the code begins, the notes are those of the doc comment of the module. -/
theorem noted_of_undeclared (h : s.outline.declarations = []) :
    s.Noted (todoNotes s.outline.topMatter) := by
  intro place hp
  cases place with
  | topMatter => exact List.Sublist.refl _
  | comment i =>
    have hlt : i < s.outline.declarations.length := hp
    rw [h] at hlt
    exact (Nat.not_lt_zero i hlt).elim

theorem Noted.comments (h : s.Noted notes) :
    ∀ d ∈ s.outline.declarations, todoNotes d.comment = [] := by
  intro d hd
  obtain ⟨i, hi, rfl⟩ := List.mem_iff_getElem.1 hd
  have here := h (.comment i) hi
  rw [if_neg Place.noConfusion, Outline.linesAt, List.getElem?_eq_getElem hi] at here
  exact List.sublist_nil.1 here

/-- What is known of the notes in the code. -/
structure Tidy (notes : List Text) (s : Scan) : Prop where
  inCode : s.inCode = true
  fenced : s.Fenced
  noted : s.Noted notes

theorem Tidy.move (h : Tidy notes s) (hl : Unmarked line) (hs : s.Sound)
    (hm : Move number line s s') : Tidy notes s' where
  inCode := (hm.extends h.inCode hs (extends_nil s)).2
  fenced := hm.fenced hl hs h.fenced
  noted := hm.noted hl h.inCode hs h.fenced h.noted

end Scan

namespace Source

/-- The notes at the end of a scan: none in the comments, and in the top matter those that were
there where the code begins. -/
theorem scan_noted {content : Text} (h : Unmarked content) (options : Options) :
    ∃ s, scan options content = .ok s ∧
      s.Noted (todoNotes (topMatterOf (Scan.sourceLines content))) := by
  have unmarked {line : Text} (hl : line ∈ Scan.sourceLines content) : Unmarked line :=
    Scan.sourceLines_unmarked h hl
  have empty : Unmarked [] := by unfold Unmarked; decide
  have ahead := Scan.fresh_ahead (options.on .exportedOnly) (Scan.sourceLines content)
  obtain ⟨t, ht, hs⟩ := Scan.lines_ok (options.on .exportedOnly) (Scan.sourceLines content)
  refine ⟨t.finish, by simp only [scan, Scan.source, ht]; rfl, ?_⟩
  rcases ahead.run (Nat.le_refl 1) ht with stay | ⟨e, enters⟩
  · have sound : t.finish.Sound := (Scan.finish_moves hs).sound (by decide) hs
    have top : t.finish.inCode = false := (Scan.finish_inCode t).trans stay.top
    exact stay.finish ▸ Scan.noted_of_undeclared (sound.top top).2.2.2.1
  · have fresh := Scan.fresh_sound (options.on .exportedOnly)
    have undeclared := enters.undeclared fresh (Nat.le_refl 1)
    have entered : e.Noted (todoNotes (topMatterOf (Scan.sourceLines content))) :=
      ahead.enters (Nat.le_refl 1) enters ▸ Scan.noted_of_undeclared undeclared
    obtain ⟨t', ht', hs', tidy⟩ := enters.keep (P := Scan.Fenced)
      (Q := Scan.Tidy (todoNotes (topMatterOf (Scan.sourceLines content)))) (Nat.le_refl 1) fresh
      (fun _ _ _ hl _ _ hs hf hm => hm.fenced (unmarked hl) hs hf)
      (fun _ _ _ hl _ _ hs tidy hm => tidy.move (unmarked hl) hs hm)
      (fun hf => ⟨enters.entered, hf, entered⟩) (Scan.fresh_fenced _)
    obtain rfl := Except.ok.inj (ht.symm.trans ht')
    exact (Scan.finish_keep (fun _ _ hs tidy hm => tidy.move empty hs hm) hs' tidy).2.noted

/-- **Notes to the authors.** In a source in which no fence mark occurs, no comment of a
declaration has a note to the authors outside of code blocks, and the notes that the top matter
has are texts of the module's doc comment, or of its copyright notes behind the first, in their
order. -/
theorem outline_todoNotes {settings : Settings} {options : Options}
    (valid : settings.validate = .ok options) {content : Text} (h : ¬ fenceMark <:+: content) :
    ∃ o, outline settings content = .ok o ∧
      (∀ d ∈ o.declarations, todoNotes d.comment = []) ∧
      todoNotes o.topMatter <+ moduleTexts (Scan.sourceLines content) := by
  obtain ⟨s, hs, noted⟩ := scan_noted h options
  have ho : outline settings content = .ok s.outline := by
    obtain ⟨s', hs', ho⟩ := outline_of_valid valid content
    rw [ho, Except.ok.inj (hs'.symm.trans hs)]
  refine ⟨s.outline, ho, noted.comments, ?_⟩
  exact (noted .topMatter trivial).trans
    (todoNotes_topMatterOf fun line hl => Scan.sourceLines_unmarked h hl)

/-- A source with notes to the authors: in the doc comment of the module, in one that stands
alone in the code, beside an element, and behind a code block of a comment. -/
def manyTodos : Text :=
  ("## Tool\n## TODO name it\n\n## TODO not here\nvar v*: int ## TODO later\n" ++
    "proc run*() =\n  ## .. code-block:: nim\n  ##   TODO()\n  ## TODO speed\n").toList

theorem outline_todoNotes_manyTodos :
    Settings.byDefault.validate = .ok Settings.byDefault.toOptions ∧ ¬ fenceMark <:+: manyTodos ∧
      ∃ o, outline .byDefault manyTodos = .ok o ∧
        (∀ d ∈ o.declarations, todoNotes d.comment = []) ∧
        todoNotes o.topMatter <+ moduleTexts (Scan.sourceLines manyTodos) := by
  have h : ¬ fenceMark <:+: manyTodos := by
    rw [← Text.hasPart_iff]
    decide +kernel
  exact ⟨rfl, h, outline_todoNotes rfl h⟩

/-- A note in the doc comment of the module is written. -/
theorem outline_todoNotes_written :
    ¬ fenceMark <:+: "## TODO name it".toList ∧
      ∃ o, outline .byDefault "## TODO name it".toList = .ok o ∧
        todoNotes o.topMatter = ["TODO name it".toList] := by
  refine ⟨?_, _, rfl, ?_⟩
  · rw [← Text.hasPart_iff]
    decide
  · decide +kernel

end Source

end NimMarkdown
