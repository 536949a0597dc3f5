import NimMarkdown.Proofs.FenceLines
import NimMarkdown.Proofs.Run

/-!
# The code blocks of a scan

A scan opens and closes code blocks in the top matter and in comments, one at a
time. `Scan.Fenced` says how the lines that it has written so far are to be read:
at every place a code block is open exactly if the fence is open there. All moves
keep this, as long as no fence mark occurs in the source itself (`Unmarked`). At
the end the fence is closed, so the fence lines of the outline, and of its
document, alternate.
-/

namespace NimMarkdown

/-- No fence mark occurs in the text. -/
def Unmarked (text : Text) : Prop := ¬ fenceMark <:+: text

theorem Unmarked.part {text part : Text} (h : Unmarked text) (hp : part <:+: text) :
    Unmarked part := fun hm => h (hm.trans hp)

theorem Unmarked.trimmed {text : Text} (h : Unmarked text) (width : Nat) :
    Unmarked (Text.stripRight (text.drop width)) :=
  h.part ((Text.stripRight_part _).trans (List.drop_suffix _ _).isInfix)

theorem Unmarked.not_fence {text : Text} (h : Unmarked text) : isFenceLine text = false := by
  cases hf : isFenceLine text with
  | false => rfl
  | true => exact (h (List.isPrefixOf_iff_prefix.1 hf).isInfix).elim

theorem plain_singleton {line : Text} (h : isFenceLine line = false) :
    ∀ l ∈ [line], isFenceLine l = false := fun _ hl => List.mem_singleton.1 hl ▸ h

theorem isFenceLine_heading (level : Nat) (text : Text) :
    isFenceLine (headingLine level text) = false := by
  cases level with
  | zero => exact isFenceLine_cons (by decide) _
  | succ level => exact isFenceLine_cons (by decide) _

theorem importBullet_not_fence {line bullet : Text} (h : Line.importBullet line = some bullet) :
    isFenceLine bullet = false := by
  simp only [Line.importBullet] at h
  split at h
  · cases h
  · split at h
    · split at h
      · cases h
      · cases h
        exact isFenceLine_cons (by decide) _
    · split at h
      · obtain ⟨⟨source, names⟩, -, rfl⟩ := Option.map_eq_some_iff.1 h
        exact isFenceLine_cons (by decide) _
      · cases h

theorem includeBullet_not_fence {line bullet : Text} (h : Line.includeBullet line = some bullet) :
    isFenceLine bullet = false := by
  simp only [Line.includeBullet] at h
  split at h
  · split at h
    · cases h
    · cases h
      exact isFenceLine_cons (by decide) _
  · cases h

namespace Scan

variable {s s' : Scan} {text line : Text} {number : Int} {place : Place}

/-- A code block is open at the place. -/
def openAt (s : Scan) (place : Place) : Bool := s.fence.isOpen && s.fence.place == some place

/-- The fence lines that have been written fit the state. -/
structure Fenced (s : Scan) : Prop where
  places : ∀ place, s.outline.Has place →
    readFences false (s.outline.linesAt place) = some (s.openAt place)
  plain : ∀ d ∈ s.outline.declarations, (∀ l ∈ d.code, isFenceLine l = false) ∧
    ∀ l ∈ d.examples, isFenceLine l = false
  bullets : ∀ l ∈ s.outline.imports ++ s.outline.includes, isFenceLine l = false
  pending : ∀ l ∈ s.pending.lines, Unmarked l
  held : ∀ t, s.held = some t → Unmarked t

theorem fresh_fenced (exportedOnly : Bool) : (fresh exportedOnly).Fenced where
  places place hp := by
    cases place with
    | topMatter => rfl
    | comment index => exact (Nat.not_lt_zero _ hp).elim
  plain := nofun
  bullets := nofun
  pending := nofun
  held := nofun

/-- The place of doc lines is in the outline. -/
theorem Sound.has_docPlace (hs : s.Sound) (h : s.docPlace = some place) : s.outline.Has place := by
  unfold docPlace at h
  split at h
  · split at h
    · next i hc =>
      cases h
      have := (hs.current i hc).2.2.1
      show i < s.outline.declarations.length
      omega
    · obtain ⟨-, ⟨rfl, -⟩ | ⟨i, d, rfl, hl, -⟩⟩ := hs.narrative place h
      · trivial
      · show i < s.outline.declarations.length
        omega
  · cases h
    trivial

theorem openAt_of_closed (h : s.fence.isOpen = false) (place : Place) : s.openAt place = false := by
  simp [openAt, h]

/-- An edit at a place, together with a change of the fence, keeps the lines readable if it
does so at the place itself. -/
theorem Fenced.edit (h : s.Fenced) (hp : s.outline.Has place) (f : List Text → List Text)
    (fence : Fence)
    (here : readFences false (f (s.outline.linesAt place)) =
      some (openAt { s with fence } place))
    (there : ∀ other, other ≠ place → openAt { s with fence } other = s.openAt other) :
    Fenced { s.edit place f with fence } := by
  refine { h with places := ?_, plain := ?_, bullets := ?_ }
  · intro other ho
    have ho' : s.outline.Has other := Outline.has_of_heads Outline.heads_modifyLines.symm ho
    show readFences false ((s.outline.modifyLines place f).linesAt other) = _
    rw [Outline.linesAt_modifyLines hp]
    split
    · next heq => rw [here, heq]; rfl
    · next hne => rw [h.places other ho', ← there other hne]; rfl
  · intro d hd
    cases place with
    | topMatter => exact h.plain d hd
    | comment index =>
      obtain ⟨e, he, rfl | rfl⟩ := mem_modify hd
      · exact h.plain _ he
      · exact h.plain e he
  · simpa [Scan.edit] using h.bullets

/-- Lines that are no fence lines may be added anywhere. -/
theorem Fenced.append (h : s.Fenced) {place : Place} (hp : s.outline.Has place) {ls : List Text}
    (hl : ∀ l ∈ ls, isFenceLine l = false) : (s.edit place (· ++ ls)).Fenced := by
  refine h.edit hp (· ++ ls) s.fence ?_ fun _ _ => rfl
  rw [readFences_append_plain hl, h.places place hp]

theorem Fenced.appendTop (h : s.Fenced) {line : Text} (hl : isFenceLine line = false) :
    (s.appendLine .topMatter line).Fenced :=
  h.append (show s.outline.Has .topMatter from trivial) (plain_singleton hl)

theorem Fenced.openFence (h : s.Fenced) (hp : s.outline.Has place) (hc : s.fence.isOpen = false)
    (text : Text) : (s.openFence place text).Fenced := by
  rw [openFence_eq]
  refine h.edit hp _ _ ?_ fun other ho => ?_
  · rw [readFences_append, h.places place hp, openAt_of_closed hc]
    split <;> simp [openAt, readFences, isFenceLine_mark, isFenceLine_source]
  · simp [openAt, hc, Ne.symm ho]

theorem Fenced.closeFence (h : s.Fenced) (hs : s.Sound) : s.closeFence.Fenced := by
  rcases hs.closeFence_cases with ⟨-, he⟩ | ⟨place, ho, hp, at_, he⟩ <;> rw [he]
  · exact h
  · have has := hs.has_docPlace at_
    refine h.edit has _ _ ?_ fun other hne => ?_
    · rw [readFences_append, h.places place has]
      simp only [openAt, ho, hp, Fence.closing]
      split <;> simp [readFences, isFenceLine_mark, show isFenceLine [] = false from rfl]
    · simp [openAt, hp, Ne.symm hne]

/-- A declaration may be added while no code block is open. -/
theorem Fenced.add (h : s.Fenced) (hc : s.fence.isOpen = false) {d : Declaration} (hd : d.Fenced) :
    Fenced { s with outline := s.outline.add d } := by
  refine { h with places := ?_, plain := ?_ }
  · intro place hp
    rcases Outline.linesAt_add_cases hp with ⟨hp', hl⟩ | ⟨-, hl⟩ <;> rw [hl]
    · exact h.places place hp'
    · rw [hd.comment]
      simp [openAt, hc]
  · intro e he
    rcases List.mem_append.1 he with he | he
    · exact h.plain e he
    · rw [List.mem_singleton.1 he]
      exact ⟨hd.code, hd.examples⟩

theorem Fenced.register (h : s.Fenced) (hc : s.fence.isOpen = false) {d : Declaration}
    (hd : d.Fenced) : (s.register d).Fenced := by
  unfold Scan.register note
  split
  · exact { h with }
  · exact { h.add hc hd with }

theorem Fenced.flushPending (h : s.Fenced) (hs : s.Sound) : s.flushPending.Fenced := by
  unfold Scan.flushPending
  split
  · exact h
  · next first rest hp =>
    have hm : ∀ l ∈ first :: rest, Unmarked l := fun l hl => h.pending l (hp ▸ hl)
    have hc := (hs.idle_of_pending (by simp [hp])).2.1
    have cleared : Fenced { s with pending := { s.pending with lines := [] } } :=
      { h with pending := fun _ hl => (List.not_mem_nil hl).elim }
    refine cleared.register hc
      { comment := rfl, code := fun l hl => ?_, examples := fun _ hl => (List.not_mem_nil hl).elim }
    rcases List.mem_cons.1 hl with rfl | hl
    · exact ((hm first List.mem_cons_self).part (Text.strip_part first)).not_fence
    · obtain ⟨m, hmem, rfl⟩ := List.mem_map.1 hl
      exact ((hm m (List.mem_cons_of_mem _ hmem)).part (Text.stripRight_part m)).not_fence

theorem lineDeclaration_fenced {code doc : Text} (hc : Unmarked code) (hd : Unmarked doc)
    (number : Int) (category : Category) : (lineDeclaration code doc number category).Fenced where
  comment := by
    refine balanced_plain fun l hl => ?_
    simp only [lineDeclaration] at hl
    split at hl
    · cases hl
    · rw [List.mem_singleton.1 hl]
      exact hd.not_fence
  code l hl := by
    rw [List.mem_singleton.1 hl]
    exact (hc.part (Text.strip_part code)).not_fence
  examples := nofun

/-! ## Moves keep the fence lines fitting -/

/-- A heading may take the place of the line below which it is drawn. -/
theorem readFences_heading {lines : List Text} {above : Text} {level : Nat} {isOpen : Bool}
    (hl : lines.getLast? = some above) (ha : isFenceLine above = false) :
    readFences isOpen (lines.dropLast ++ [headingLine level above]) = readFences isOpen lines := by
  obtain ⟨before, rfl⟩ := List.getLast?_eq_some_iff.1 hl
  rw [List.dropLast_concat, readFences_append_plain (plain_singleton ha),
    readFences_append_plain (plain_singleton (isFenceLine_heading level above))]

theorem Fenced.commentPlace (h : s.Fenced) (free : s.Free) (hc : s.current = none)
    (hn : s.narrative = none) : s.commentPlace.2.Fenced := by
  simp only [Scan.commentPlace, hc, hn]
  split
  · split
    · exact { h.appendTop (show isFenceLine [] = false from rfl) with }
    · exact { h with }
  · next category _ =>
    have empty : Declaration.Fenced
        { lineNumber := 0, isExported := true, category, heading := none } :=
      { comment := rfl, code := by simp, examples := by simp }
    exact { h.add free.1 empty with }

theorem DocMove.fenced (ht : Unmarked text) (hs : s.Sound) (h : s.Fenced) (hm : DocMove text s s') :
    s'.Fenced := by
  cases hm with
  | openFence free at_ => exact h.openFence (hs.has_docPlace at_) free.1 text
  | closeFence => exact h.closeFence hs
  | holdBlank | dropBlank => exact { h with }
  | @writeFenced place ho hp =>
    have has : s.outline.Has place := hs.has_docPlace (hs.docPlace_of_open ho hp)
    rw [writeFenced_eq]
    have plain : ∀ l ∈ s.fence.resuming ++
        [Text.stripRight (text.drop (min (s.fence.indent.getD text.indent) text.indent))],
        isFenceLine l = false := by
      intro l hl
      rcases List.mem_append.1 hl with hl | hl
      · unfold Fence.resuming at hl
        split at hl
        · exact plain_singleton rfl l hl
        · cases hl
      · exact plain_singleton (ht.trimmed _).not_fence l hl
    exact { h.append has plain with }
  | narrative free _ hc hn => exact h.commentPlace free hc hn
  | @write place free _ at_ =>
    have has := hs.has_docPlace at_
    rcases docTextAt_cases s place text with he | he | ⟨above, level, hl, -, ha, -, he⟩ <;> rw [he]
    · exact h
    · exact h.append has (plain_singleton ht.not_fence)
    · refine h.edit has (·.dropLast ++ [headingLine level above]) s.fence ?_ fun _ _ => rfl
      rw [readFences_heading hl ha, h.places place has]

theorem docMoves_fenced (ht : Unmarked text) (hs : s.Sound) (h : s.Fenced)
    (hm : Relation.ReflTransGen (DocMove text) s s') : s'.Fenced := by
  induction hm with
  | refl => exact h
  | tail before hm ih => exact hm.fenced ht (docMoves_sound hs before) ih

theorem Fenced.commitHeld (h : s.Fenced) : s.commitHeld.Fenced := by
  unfold Scan.commitHeld
  split
  · exact h
  · next above hh => exact { h.appendTop (h.held above hh).not_fence with held := nofun }

/-- Lines that are no fence lines may be added to the examples. -/
theorem Fenced.modify (h : s.Fenced) (index : Nat) {g : Declaration → Declaration}
    (hg : ∀ d, (g d).comment = d.comment ∧ (g d).code = d.code ∧
      ∀ l ∈ (g d).examples, l ∈ d.examples ∨ isFenceLine l = false) :
    Fenced { s with outline := s.outline.modify index g } := by
  refine { h with places := ?_, plain := ?_ }
  · intro place hp
    have hp' : s.outline.Has place := by
      cases place with
      | topMatter => trivial
      | comment i => simpa [Outline.Has, Outline.modify] using hp
    rw [Outline.linesAt_modify _ _ fun d => (hg d).1]
    exact h.places place hp'
  · intro d hd
    obtain ⟨e, he, rfl | rfl⟩ := mem_modify hd
    · exact h.plain _ he
    · obtain ⟨-, hcode, hex⟩ := hg e
      refine ⟨hcode ▸ (h.plain e he).1, fun l hl => ?_⟩
      rcases hex l hl with hl | hl
      · exact (h.plain e he).2 l hl
      · exact hl

theorem Fenced.addExample (h : s.Fenced) (index : Nat) (hl : isFenceLine line = false) :
    (s.addExample index line).Fenced := by
  refine h.modify index fun d => ⟨rfl, rfl, fun l hm => ?_⟩
  exact (List.mem_append.1 hm).imp_right (plain_singleton hl l)

theorem Fenced.addBlankExample (h : s.Fenced) (index : Nat) : (s.addBlankExample index).Fenced := by
  refine h.modify index fun d => ?_
  split
  · exact ⟨rfl, rfl, fun l hl => .inl hl⟩
  · exact ⟨rfl, rfl, fun l hl => (List.mem_append.1 hl).imp_right (plain_singleton rfl l)⟩

theorem Fenced.captureLine (hl : Unmarked line) (h : s.Fenced) : (s.captureLine line).2.Fenced := by
  unfold Scan.captureLine
  split
  · exact { h with }
  · split
    · exact h
    · next index _ =>
      split
      · exact h.addBlankExample index
      · have h' (c : Capture) : Fenced { s with capture := c } := { h with }
        exact (h' _).addExample index (hl.trimmed _).not_fence

theorem Move.fenced (hl : Unmarked line) (hs : s.Sound) (h : s.Fenced)
    (hm : Move number line s s') : s'.Fenced := by
  have unmarked {t : Text} (ht : t = Line.docText line ∨ t = Line.commentText line) :
      Unmarked t := by
    rcases ht with rfl | rfl
    · exact hl.part (Line.docText_part line)
    · exact hl.part (Line.commentText_part line)
  cases hm with
  | doc ht h' => exact h'.fenced (unmarked ht) hs h
  | beginDoc | enterCode | accept | enterSection => exact { h with }
  | copyright =>
    have note : isFenceLine ('*' :: (Line.commentText line ++ ['*'])) = false :=
      isFenceLine_cons (by decide) _
    have blank : isFenceLine [] = false := rfl
    exact { (h.appendTop note).appendTop blank with }
  | commitHeld => exact h.commitHeld
  | hold _ ht =>
    exact { h with held := fun t he => by cases he; exact unmarked ht }
  | @headHeld above level =>
    exact { h.appendTop (isFenceLine_heading level above) with held := nofun }
  | flush => exact h.flushPending hs
  | endDeclaration => exact { h with }
  | start => exact { h with pending := fun l hm => List.mem_singleton.1 hm ▸ hl }
  | extend =>
    refine { h with pending := fun l hm => ?_ }
    rcases List.mem_append.1 hm with hm | hm
    · exact h.pending l hm
    · exact List.mem_singleton.1 hm ▸ hl
  | replace => exact { h with pending := fun _ hm => nomatch hm }
  | declare idle _ _ part =>
    exact h.register idle.2.1
      (lineDeclaration_fenced (hl.part part.1) (hl.part part.2) _ _)
  | listImport hb =>
    refine { h with bullets := fun l hm => ?_ }
    rcases List.mem_append.1 hm with hm | hm
    · rcases List.mem_append.1 hm with hm | hm
      · exact h.bullets l (List.mem_append_left _ hm)
      · exact List.mem_singleton.1 hm ▸ importBullet_not_fence hb
    · exact h.bullets l (List.mem_append_right _ hm)
  | listInclude hb =>
    refine { h with bullets := fun l hm => ?_ }
    rcases List.mem_append.1 hm with hm | hm
    · exact h.bullets l (List.mem_append_left _ hm)
    · rcases List.mem_append.1 hm with hm | hm
      · exact h.bullets l (List.mem_append_right _ hm)
      · exact List.mem_singleton.1 hm ▸ includeBullet_not_fence hb
  | startCapture => exact { h with }
  | capture => exact h.captureLine hl

/-! ## The end of a scan -/

theorem finish_closed (hs : s.Sound) : s.finish.fence.isOpen = false := by
  simp only [finish, endDeclaration, flushPending_frame]
  split
  · exact closeFence_isOpen hs
  · exact closeFence_isOpen hs.commitHeld

theorem Fenced.outline (h : s.Fenced) (hc : s.fence.isOpen = false) : s.outline.Fenced where
  topMatter := by
    have := h.places .topMatter trivial
    rwa [openAt_of_closed hc] at this
  bullets := h.bullets
  declarations d hd := by
    obtain ⟨i, hi, rfl⟩ := List.mem_iff_getElem.1 hd
    have comment := h.places (.comment i) hi
    simp only [openAt_of_closed hc, Outline.linesAt, List.getElem?_eq_getElem hi] at comment
    exact { comment, code := (h.plain _ hd).1, examples := (h.plain _ hd).2 }

theorem sourceLines_unmarked {content : Text} (h : Unmarked content)
    (hl : line ∈ sourceLines content) : Unmarked line := by
  obtain ⟨raw, hr, rfl⟩ := List.mem_map.1 hl
  exact (h.part (Text.splitLines_part hr)).part (dropEndWhile_isPrefix _ raw).isInfix

end Scan

namespace Source

theorem scan_fenced {content : Text} (h : Unmarked content) (options : Options) :
    ∃ s, scan options content = .ok s ∧ s.outline.Fenced := by
  obtain ⟨s, he, hs, hf⟩ := Scan.lines_keep (P := Scan.Fenced) (Scan.sourceLines content)
    (fun _ _ _ hl _ _ hs hf hm => hm.fenced (Scan.sourceLines_unmarked h hl) hs hf) 1
    (Nat.le_refl 1) (Scan.fresh_sound (options.on .exportedOnly)) (Scan.fresh_fenced _)
  refine ⟨s.finish, by simp only [scan, Scan.source, he]; rfl, ?_⟩
  -- The end of the source is made of moves of an empty line.
  have empty : Unmarked [] := by unfold Unmarked; decide
  have hfin := (Scan.finish_keep (fun _ _ hs hf hm => hm.fenced empty hs hf) hs hf).2
  exact hfin.outline (Scan.finish_closed hs)

/-- **The fence lines alternate.** In the document of a source in which no fence mark
occurs code blocks are opened and closed in turn, and so they are in the top matter and in
every comment. -/
theorem fences_alternate {settings : Settings} {options : Options}
    (valid : settings.validate = .ok options) {content : Text} (h : ¬ fenceMark <:+: content) :
    ∃ o d, outline settings content = .ok o ∧ document settings content = .ok d ∧
      FencesAlternate d.lines ∧ FencesAlternate o.topMatter ∧
      ∀ e ∈ o.declarations, FencesAlternate e.comment := by
  obtain ⟨s, hs, hf⟩ := scan_fenced h options
  have ho : outline settings content = .ok s.outline := by
    obtain ⟨s', hs', ho⟩ := outline_of_valid valid content
    rw [ho, Except.ok.inj (hs'.symm.trans hs)]
  exact ⟨s.outline, s.outline.render options.on, ho, document_of_valid valid ho,
    (render_balanced hf options.on).alternate, hf.topMatter.alternate,
    fun e he => (hf.declarations e he).comment.alternate⟩

/-- A source with a code block in the top matter, and one in a comment that runs to its end. -/
def twoBlocks : Text :=
  ("## Tool\n## .. code-block:: nim\n##   echo 1\nproc run*() =\n  ## Runs\n" ++
    "  ## .. code-block:: plain\n  ##   run()").toList

theorem fences_alternate_twoBlocks :
    Settings.byDefault.validate = .ok Settings.byDefault.toOptions ∧ ¬ fenceMark <:+: twoBlocks ∧
      ∃ o d, outline .byDefault twoBlocks = .ok o ∧ document .byDefault twoBlocks = .ok d ∧
        FencesAlternate d.lines ∧ FencesAlternate o.topMatter ∧
        ∀ e ∈ o.declarations, FencesAlternate e.comment := by
  have h : ¬ fenceMark <:+: twoBlocks := by
    rw [← Text.hasPart_iff]
    decide
  exact ⟨rfl, h, fences_alternate rfl h⟩

end Source

end NimMarkdown
