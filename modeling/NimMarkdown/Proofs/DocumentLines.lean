import NimMarkdown.Proofs.NeatLines
import NimMarkdown.Proofs.Run

/-!
# The lines of a document

A scan takes its texts from the lines of a source, which have no line feed, and every
text it makes of one is a part of it, maybe behind a mark: no move puts a line feed
into the outline (`Scan.Unbroken`). So the document is neat, and its text, split at the
line feeds, gives back its lines (`document_lines`).
-/

namespace NimMarkdown

namespace Line

theorem headingPart_isPrefix (inOperator : Bool) (t : Text) : headingPart inOperator t <+: t := by
  induction t generalizing inOperator with
  | nil => exact List.prefix_rfl
  | cons c r ih =>
    unfold headingPart
    split
    · exact (List.prefix_cons_inj c).2 (ih _)
    · split
      · exact List.nil_prefix
      · exact (List.prefix_cons_inj c).2 (ih _)

theorem declarationHeading_part (line : Text) : declarationHeading line <:+: line :=
  (Text.stripRight_part _).trans
    ((headingPart_isPrefix false line.strip).isInfix.trans (Text.strip_part line))

theorem withoutComment_part (line : Text) : withoutComment line <:+: line :=
  (Text.stripRight_part _).trans (List.takeWhile_prefix _).isInfix

theorem dropQuotes_part (t : Text) : dropQuotes t <:+: t :=
  (dropEndWhile_isPrefix _ _).isInfix.trans (List.dropWhile_suffix _).isInfix

variable {line bullet : Text}

/-- A bullet begins with a mark, so it is not blank. -/
theorem bullet_text {t : Text} (h : t.Unbroken) :
    Text.Unbroken ("- ".toList ++ t) ∧ Text.isBlankText ("- ".toList ++ t) = false :=
  have neat := Neat.singleton_append (t := "- ".toList) (by decide) (by decide) h
  ⟨neat.unbroken _ List.mem_cons_self, neat.first _ rfl⟩

theorem importBullet_text (h : line.Unbroken) (hb : importBullet line = some bullet) :
    bullet.Unbroken ∧ bullet.isBlankText = false := by
  have text := h.part (withoutComment_part line)
  simp only [importBullet] at hb
  split at hb
  · cases hb
  · split at hb
    · split at hb
      · cases hb
      · cases hb
        exact bullet_text (text.part ((Text.strip_part _).trans (List.drop_suffix _ _).isInfix))
    · split at hb
      · obtain ⟨⟨source, names⟩, hc, rfl⟩ := Option.map_eq_some_iff.1 hb
        have whole := text.part (List.drop_suffix 4 _).isInfix
        rw [Text.cutAt_eq hc, List.append_assoc] at whole
        have first : Text.Unbroken source := whole.part (List.prefix_append _ _).isInfix
        have last : Text.Unbroken names :=
          whole.part ((List.suffix_append _ _).trans (List.suffix_append _ _)).isInfix
        have colon : Text.Unbroken ": ".toList := by decide
        rw [List.append_assoc, List.append_assoc]
        exact bullet_text ((first.part (Text.strip_part _)).append
          (colon.append (last.part (Text.strip_part _))))
      · cases hb

theorem includeBullet_text (h : line.Unbroken) (hb : includeBullet line = some bullet) :
    bullet.Unbroken ∧ bullet.isBlankText = false := by
  have text := h.part (withoutComment_part line)
  simp only [includeBullet] at hb
  split at hb
  · split at hb
    · cases hb
    · cases hb
      exact bullet_text (text.part ((dropQuotes_part _).trans
        ((Text.strip_part _).trans (List.drop_suffix _ _).isInfix)))
  · cases hb

end Line

namespace Outline.Unbroken

variable {o : Outline} {d : Declaration}

theorem linesAt (h : o.Unbroken) (place : Place) : ∀ t ∈ o.linesAt place, t.Unbroken := by
  intro t ht
  cases place with
  | topMatter => exact h.topMatter t ht
  | comment index =>
    cases hi : o.declarations[index]? with
    | none => simp [Outline.linesAt, hi] at ht
    | some d =>
      simp only [Outline.linesAt, hi, Option.map_some, Option.getD_some] at ht
      exact (h.declarations d (List.mem_of_getElem? hi)).comment t ht

theorem add (h : o.Unbroken) (hd : d.Unbroken) : (o.add d).Unbroken :=
  { h with
    declarations := List.forall_mem_append.2 ⟨h.declarations, List.forall_mem_singleton.2 hd⟩ }

theorem modify (h : o.Unbroken) (index : Nat) {g : Declaration → Declaration}
    (hg : ∀ d ∈ o.declarations, d.Unbroken → (g d).Unbroken) : (o.modify index g).Unbroken :=
  { h with
    declarations := fun e he => by
      obtain ⟨d, hd, rfl | rfl⟩ := mem_modify he
      · exact h.declarations _ hd
      · exact hg d hd (h.declarations d hd) }

theorem modifyLines (h : o.Unbroken) (place : Place) {f : List Text → List Text}
    (hf : ∀ lines : List Text, (∀ t ∈ lines, t.Unbroken) → ∀ t ∈ f lines, t.Unbroken) :
    (o.modifyLines place f).Unbroken := by
  cases place with
  | topMatter => exact { h with topMatter := hf _ h.topMatter }
  | comment index =>
    exact h.modify index fun d _ hd => { hd with comment := hf d.comment hd.comment }

end Outline.Unbroken

namespace Scan

variable {s s' : Scan} {text line : Text} {number : Int}

/-- The texts of a scan have no line feed. -/
structure Unbroken (s : Scan) : Prop where
  held : ∀ t ∈ s.held, t.Unbroken
  pending : ∀ t ∈ s.pending.lines, t.Unbroken
  outline : s.outline.Unbroken

theorem fresh_unbroken (exportedOnly : Bool) : (fresh exportedOnly).Unbroken :=
  ⟨nofun, nofun, nofun, nofun, nofun, nofun⟩

theorem Unbroken.edit (h : s.Unbroken) (place : Place) {f : List Text → List Text}
    (hf : ∀ lines : List Text, (∀ t ∈ lines, t.Unbroken) → ∀ t ∈ f lines, t.Unbroken) :
    (s.edit place f).Unbroken :=
  { h with outline := h.outline.modifyLines place hf }

theorem Unbroken.append (h : s.Unbroken) (place : Place) {ls : List Text}
    (hl : ∀ t ∈ ls, t.Unbroken) : (s.edit place (· ++ ls)).Unbroken :=
  h.edit place fun _ old => List.forall_mem_append.2 ⟨old, hl⟩

theorem Unbroken.appendLine (h : s.Unbroken) (place : Place) (hl : line.Unbroken) :
    (s.appendLine place line).Unbroken :=
  h.append place (List.forall_mem_singleton.2 hl)

theorem Unbroken.register (h : s.Unbroken) {d : Declaration} (hd : d.Unbroken) :
    (s.register d).Unbroken := by
  unfold Scan.register note
  split
  · exact { h with }
  · exact { h with outline := h.outline.add hd }

theorem Unbroken.flushPending (h : s.Unbroken) : s.flushPending.Unbroken := by
  cases hp : s.pending.lines with
  | nil => rwa [flushPending_of_empty hp]
  | cons first rest =>
    simp only [Scan.flushPending, hp]
    have lines : ∀ t ∈ first :: rest, t.Unbroken := fun t ht => h.pending t (hp ▸ ht)
    have cleared : Unbroken { s with pending := { s.pending with lines := [] } } :=
      { h with pending := List.forall_mem_nil _ }
    obtain ⟨signature, further⟩ := List.forall_mem_cons.1 lines
    refine cleared.register
      { heading := fun t ht => ?_, code := List.forall_mem_cons.2 ⟨?_, ?_⟩,
        comment := List.forall_mem_nil _, examples := List.forall_mem_nil _ }
    · exact Option.some.inj ht ▸ signature.part (Line.declarationHeading_part first)
    · exact signature.part (Text.strip_part first)
    · exact List.forall_mem_map.2 fun u hu => (further u hu).part (Text.stripRight_part u)

theorem lineDeclaration_unbroken {code doc : Text} (hc : code.Unbroken) (hd : doc.Unbroken)
    (number : Int) (category : Category) : (lineDeclaration code doc number category).Unbroken where
  heading t ht := Option.some.inj ht ▸ hc.part (Line.declarationHeading_part code)
  code t ht := List.mem_singleton.1 ht ▸ hc.part (Text.strip_part code)
  comment t ht := by
    simp only [lineDeclaration] at ht
    split at ht
    · cases ht
    · exact List.mem_singleton.1 ht ▸ hd
  examples := nofun

theorem Unbroken.commentPlace (h : s.Unbroken) : s.commentPlace.2.Unbroken := by
  have blank : Text.Unbroken [] := by decide
  unfold Scan.commentPlace
  split
  · exact h
  · split
    · exact h
    · split
      · split
        · exact { h.appendLine .topMatter blank with }
        · exact { h with }
      · exact { h with
          outline := h.outline.add
            { heading := nofun, code := nofun, comment := nofun, examples := nofun } }

theorem DocMove.unbroken (ht : text.Unbroken) (hs : s.Sound) (h : s.Unbroken)
    (hm : DocMove text s s') : s'.Unbroken := by
  have mark : fenceMark.Unbroken := by decide
  have nimMark : sourceFence.Unbroken := by decide
  have blank : Text.Unbroken [] := by decide
  cases hm with
  | @openFence place =>
    rw [openFence_eq]
    have opening : Text.Unbroken (if Line.isPlainBlock text then fenceMark else sourceFence) := by
      split
      · exact mark
      · exact nimMark
    exact { h.appendLine place opening with }
  | closeFence =>
    rcases hs.closeFence_cases with ⟨-, he⟩ | ⟨place, -, -, -, he⟩ <;> rw [he]
    · exact h
    · have closing : ∀ t ∈ s.fence.closing, t.Unbroken := by
        unfold Fence.closing
        split
        · simpa using ⟨mark, blank⟩
        · simpa using mark
      exact { h.append place closing with }
  | holdBlank | dropBlank => exact { h with }
  | @writeFenced place =>
    rw [writeFenced_eq]
    have resuming : ∀ t ∈ s.fence.resuming, t.Unbroken := by
      unfold Fence.resuming
      split
      · simpa using blank
      · exact nofun
    have body (width : Nat) : Text.Unbroken (Text.stripRight (text.drop width)) :=
      ht.part ((Text.stripRight_part _).trans (List.drop_suffix _ _).isInfix)
    exact { h.append place (List.forall_mem_append.2
      ⟨resuming, List.forall_mem_singleton.2 (body _)⟩) with }
  | narrative => exact h.commentPlace
  | @write place =>
    rcases docTextAt_cases s place text with he | he | ⟨above, level, hl, -, -, -, he⟩ <;> rw [he]
    · exact h
    · exact h.appendLine place ht
    · have line := h.outline.linesAt place above (List.mem_of_getLast? hl)
      refine h.edit place fun lines old => List.forall_mem_append.2 ⟨fun t ht => ?_, ?_⟩
      · exact old t ((List.dropLast_sublist lines).subset ht)
      · exact List.forall_mem_singleton.2 (line.heading level)

theorem Unbroken.captureLine (hl : line.Unbroken) (h : s.Unbroken) :
    (s.captureLine line).2.Unbroken := by
  unfold Scan.captureLine
  split
  · exact { h with }
  · split
    · exact h
    · next index _ =>
      have added (d : Declaration) (hd : d.Unbroken) {t : Text} (ht : t.Unbroken) :
          Declaration.Unbroken { d with examples := d.examples ++ [t] } :=
        { hd with
          examples := List.forall_mem_append.2 ⟨hd.examples, List.forall_mem_singleton.2 ht⟩ }
      split
      · refine { h with outline := h.outline.modify index fun d _ hd => ?_ }
        split
        · exact hd
        · exact added d hd (by decide)
      · refine { h with outline := h.outline.modify index fun d _ hd => added d hd ?_ }
        exact hl.part ((Text.stripRight_part _).trans (List.drop_suffix _ _).isInfix)

theorem Move.unbroken (hl : line.Unbroken) (hs : s.Sound) (h : s.Unbroken)
    (hm : Move number line s s') : s'.Unbroken := by
  have part {t : Text} (ht : t = Line.docText line ∨ t = Line.commentText line) : t.Unbroken := by
    rcases ht with rfl | rfl
    · exact hl.part (Line.docText_part line)
    · exact hl.part (Line.commentText_part line)
  cases hm with
  | doc ht h' => exact h'.unbroken (part ht) hs h
  | beginDoc | enterCode | accept | enterSection | endDeclaration | startCapture =>
    exact { h with }
  | copyright =>
    have star : Text.Unbroken ['*'] := by decide
    have blank : Text.Unbroken [] := by decide
    have note : Text.Unbroken ('*' :: (Line.commentText line ++ ['*'])) :=
      star.append ((part (.inr rfl)).append star)
    exact { (h.appendLine .topMatter note).appendLine .topMatter blank with }
  | commitHeld =>
    unfold Scan.commitHeld
    split
    · exact h
    · next above hh => exact { h.appendLine .topMatter (h.held above hh) with held := nofun }
  | hold _ ht => exact { h with held := fun t he => Option.some.inj he ▸ part ht }
  | headHeld _ held =>
    exact { h.appendLine .topMatter ((h.held _ held).heading _) with held := nofun }
  | flush => exact h.flushPending
  | start => exact { h with pending := List.forall_mem_singleton.2 hl }
  | extend =>
    exact { h with
      pending := List.forall_mem_append.2 ⟨h.pending, List.forall_mem_singleton.2 hl⟩ }
  | replace => exact { h with pending := nofun }
  | declare _ _ _ parts =>
    exact h.register (lineDeclaration_unbroken (hl.part parts.1) (hl.part parts.2) _ _)
  | listImport hb =>
    have bullet := Line.importBullet_text (hl.part (Text.strip_part line)) hb
    exact { h with
      outline := { h.outline with
        imports := List.forall_mem_append.2
          ⟨h.outline.imports, List.forall_mem_singleton.2 bullet⟩ } }
  | listInclude hb =>
    have bullet := Line.includeBullet_text (hl.part (Text.strip_part line)) hb
    exact { h with
      outline := { h.outline with
        includes := List.forall_mem_append.2
          ⟨h.outline.includes, List.forall_mem_singleton.2 bullet⟩ } }
  | capture => exact h.captureLine hl

theorem sourceLines_unbroken (content : Text) : ∀ line ∈ sourceLines content, line.Unbroken := by
  intro line hl
  obtain ⟨raw, hr, rfl⟩ := List.mem_map.1 hl
  have whole : raw.Unbroken := Text.lineFeed_not_mem_splitLines content raw hr
  exact whole.part (dropEndWhile_isPrefix _ raw).isInfix

/-- A scan comes to an outline without line feeds. -/
theorem source_unbroken (exportedOnly : Bool) (content : Text) :
    ∃ s, source exportedOnly content = .ok s ∧ s.outline.Unbroken := by
  obtain ⟨s, he, hs, h⟩ := lines_keep (P := Unbroken) (sourceLines content)
    (fun _ _ _ hl _ _ hs h hm => hm.unbroken (sourceLines_unbroken content _ hl) hs h) 1
    (Nat.le_refl 1) (fresh_sound exportedOnly) (fresh_unbroken exportedOnly)
  have finished := (finish_keep (fun _ _ hs h hm => hm.unbroken (by decide) hs h) hs h).2
  exact ⟨s.finish, source_of_lines he, finished.outline⟩

end Scan

namespace Source

/-- **The text of a document determines its lines, and its ends are not blank.** No line has a
line feed, so a document that is not empty is read back from its text. -/
theorem document_lines {settings : Settings} {options : Options}
    (valid : settings.validate = .ok options) (content : Text) :
    ∃ d, document settings content = .ok d ∧ (∀ line ∈ d.lines, '\n' ∉ line) ∧
      (d.isEmpty = false → Text.splitLines d.text = d.lines) ∧
      (∀ line ∈ d.lines.head?, line.isBlankText = false) ∧
      ∀ line ∈ d.lines.getLast?, line.isBlankText = false := by
  obtain ⟨s, hs, h⟩ := Scan.source_unbroken (options.on .exportedOnly) content
  have neat : Neat (s.outline.render options.on).lines := h.render
  refine ⟨s.outline.render options.on, document_of_valid valid (outline_of_source valid hs),
    neat.unbroken, fun filled => ?_, neat.first, neat.last⟩
  exact Text.splitLines_joinLines (List.isEmpty_eq_false_iff.1 filled) neat.unbroken

/-- The top matter has blank lines at its ends, a code block with one behind it, and a rest that is
taken for a narrative; the last narrative is blank. -/
def blankEnds : Text :=
  ("##\n## Title\n## .. code-block:: nim\n##   let x = 1\n##\n##\n\n## Rest\n##\n\n" ++
    "let b* = 2\n\n##\n##  \n").toList

theorem document_lines_blankEnds :
    let settings := Settings.byDefault.set (.toggle .lineNumbers) (.bool true)
    settings.validate = .ok settings.toOptions ∧
      (document settings blankEnds).map (·.lines.length) = .ok 16 ∧
      ∃ d, document settings blankEnds = .ok d ∧ (∀ line ∈ d.lines, '\n' ∉ line) ∧
        (d.isEmpty = false → Text.splitLines d.text = d.lines) ∧
        (∀ line ∈ d.lines.head?, line.isBlankText = false) ∧
        ∀ line ∈ d.lines.getLast?, line.isBlankText = false :=
  ⟨rfl, by decide +kernel, document_lines rfl blankEnds⟩

end Source

end NimMarkdown
