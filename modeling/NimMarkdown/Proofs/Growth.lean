import NimMarkdown.Proofs.DocItems
import NimMarkdown.Proofs.Exported
import NimMarkdown.Proofs.Fences

/-!
# How an outline grows

A line of the source adds to an outline at its end. `Outline.Grows o o' k m`: up to
`k` declarations and `m` bullets are new, the last declaration that was there may
have got further lines in its comment and examples, and the top matter grows only
where there is no declaration. The costs `k` and `m` add up over the operations
that a line is made of.

One thing does not fit: an underline makes a heading of the last line at the place
where doc lines go (`Scan.HeadsLast`). `line_grows`: a line does one or the other,
never both, for what it may have written before is a fence, a blank line or in a
new place.
-/

namespace NimMarkdown

/-- The second declaration is the first, maybe with further lines in its texts. -/
structure Declaration.Grows (d e : Declaration) : Prop where
  head : e.head = d.head
  comment : d.comment <+: e.comment
  examples : d.examples <+: e.examples

theorem Declaration.Grows.refl (d : Declaration) : d.Grows d :=
  ⟨rfl, List.prefix_rfl, List.prefix_rfl⟩

theorem Declaration.Grows.trans {c d e : Declaration} (h : c.Grows d) (h' : d.Grows e) :
    c.Grows e :=
  ⟨h'.head.trans h.head, h.comment.trans h'.comment, h.examples.trans h'.examples⟩

/-- Of the declarations the last one may have grown. -/
def LastGrows (ds es : List Declaration) : Prop :=
  es = ds ∨ ∃ before d e, ds = before ++ [d] ∧ es = before ++ [e] ∧ d.Grows e

theorem LastGrows.trans {cs ds es : List Declaration} (h : LastGrows cs ds)
    (h' : LastGrows ds es) : LastGrows cs es := by
  rcases h with rfl | ⟨before, c, d, hc, rfl, hg⟩
  · exact h'
  · rcases h' with rfl | ⟨before', d', e, hd, rfl, hg'⟩
    · exact .inr ⟨before, c, d, hc, rfl, hg⟩
    · obtain ⟨rfl, hlast⟩ := List.append_inj' hd rfl
      obtain rfl := List.singleton_inj.1 hlast
      exact .inr ⟨before, c, e, hc, rfl, hg.trans hg'⟩

theorem LastGrows.length_eq {ds es : List Declaration} (h : LastGrows ds es) :
    es.length = ds.length := by
  rcases h with rfl | ⟨before, d, e, rfl, rfl, -⟩
  · rfl
  · simp

/-- What has grown behind a list is none of its elements, or its last one. -/
theorem LastGrows.split {cs ds es : List Declaration} (h : LastGrows (cs ++ ds) es) :
    ∃ kept rest, es = kept ++ rest ∧ LastGrows cs kept ∧ rest.length = ds.length := by
  rcases List.eq_nil_or_concat ds with rfl | ⟨init, last, rfl⟩
  · rw [List.append_nil] at h
    exact ⟨es, [], (List.append_nil es).symm, h, rfl⟩
  · rcases h with rfl | ⟨before, d, e, hd, rfl, -⟩
    · exact ⟨cs, _, rfl, .inl rfl, rfl⟩
    · rw [List.concat_eq_append, ← List.append_assoc] at hd
      obtain ⟨rfl, -⟩ := List.append_inj' hd rfl
      exact ⟨cs, init ++ [e], List.append_assoc .., .inl rfl, by simp⟩

namespace Outline

variable {o o' o'' : Outline} {k m k' m' : Nat}

/-- The second outline is the first with up to `k` further declarations and `m` further bullets;
the last declaration and, before the first one, the top matter may have grown. -/
structure Grows (o o' : Outline) (k m : Nat) : Prop where
  declarations : ∃ kept added, o'.declarations = kept ++ added ∧ LastGrows o.declarations kept ∧
    added.length ≤ k
  bullets : ∃ imports includes, o'.imports = o.imports ++ imports ∧
    o'.includes = o.includes ++ includes ∧ imports.length + includes.length ≤ m
  topMatter : o.topMatter <+: o'.topMatter
  settled : o.declarations ≠ [] → o'.topMatter = o.topMatter

theorem Grows.refl (o : Outline) (k m : Nat) : o.Grows o k m where
  declarations := ⟨_, [], (List.append_nil _).symm, .inl rfl, Nat.zero_le k⟩
  bullets := ⟨[], [], by simp, by simp, Nat.zero_le m⟩
  topMatter := List.prefix_rfl
  settled _ := rfl

theorem Grows.mono (h : o.Grows o' k m) (hk : k ≤ k') (hm : m ≤ m') : o.Grows o' k' m' where
  declarations := by
    obtain ⟨kept, added, hd, hl, hn⟩ := h.declarations
    exact ⟨kept, added, hd, hl, hn.trans hk⟩
  bullets := by
    obtain ⟨imports, includes, h1, h2, hn⟩ := h.bullets
    exact ⟨imports, includes, h1, h2, hn.trans hm⟩
  topMatter := h.topMatter
  settled := h.settled

theorem Grows.trans (h : o.Grows o' k m) (h' : o'.Grows o'' k' m') :
    o.Grows o'' (k + k') (m + m') := by
  obtain ⟨kept, added, hd, hl, hn⟩ := h.declarations
  obtain ⟨kept', added', hd', hl', hn'⟩ := h'.declarations
  obtain ⟨imports, includes, hi, hc, hb⟩ := h.bullets
  obtain ⟨imports', includes', hi', hc', hb'⟩ := h'.bullets
  refine ⟨?_, ?_, h.topMatter.trans h'.topMatter, fun hne => ?_⟩
  · obtain ⟨kept'', rest, rfl, hl'', hr⟩ := (hd ▸ hl').split
    refine ⟨kept'', rest ++ added', by rw [hd', List.append_assoc], hl.trans hl'', ?_⟩
    rw [List.length_append, hr]
    omega
  · refine ⟨imports ++ imports', includes ++ includes', ?_, ?_, ?_⟩
    · rw [hi', hi, List.append_assoc]
    · rw [hc', hc, List.append_assoc]
    · simp only [List.length_append]
      omega
  · refine (h'.settled fun hnil => hne ?_).trans (h.settled hne)
    have hlen := hl.length_eq
    rw [hd, List.append_eq_nil_iff] at hnil
    rw [hnil.1] at hlen
    exact List.length_eq_zero_iff.1 hlen.symm

theorem grows_add (o : Outline) (d : Declaration) : o.Grows (o.add d) 1 0 where
  declarations := ⟨o.declarations, [d], rfl, .inl rfl, Nat.le_refl 1⟩
  bullets := ⟨[], [], by simp [add], by simp [add], Nat.le_refl 0⟩
  topMatter := List.prefix_rfl
  settled _ := rfl

/-- The last declaration may grow. -/
theorem grows_modify {before : List Declaration} {d : Declaration}
    (hd : o.declarations = before ++ [d]) {g : Declaration → Declaration} (hg : d.Grows (g d)) :
    o.Grows (o.modify before.length g) 0 0 where
  declarations := by
    refine ⟨before ++ [g d], [], ?_, .inr ⟨before, d, g d, hd, rfl, hg⟩, Nat.le_refl 0⟩
    rw [modify, hd, modify_concat, List.append_nil]
  bullets := ⟨[], [], by simp [modify], by simp [modify], Nat.le_refl 0⟩
  topMatter := List.prefix_rfl
  settled _ := rfl

/-- Where there is no declaration the top matter may grow. -/
theorem grows_topMatter (hd : o.declarations = []) (ls : List Text) :
    o.Grows (o.modifyLines .topMatter (· ++ ls)) 0 0 where
  declarations := ⟨[], [], hd, .inl hd.symm, Nat.le_refl 0⟩
  bullets := ⟨[], [], by simp, by simp, Nat.le_refl 0⟩
  topMatter := List.prefix_append _ _
  settled hne := (hne hd).elim

/-- What was written at a place still begins the lines there. -/
theorem Grows.linesAt (h : o.Grows o' k m) (place : Place) :
    o.linesAt place <+: o'.linesAt place := by
  cases place with
  | topMatter => exact h.topMatter
  | comment index =>
    obtain ⟨kept, added, hd, hl, -⟩ := h.declarations
    by_cases hi : index < o.declarations.length
    · simp only [Outline.linesAt, hd]
      rw [List.getElem?_append_left (by rw [hl.length_eq]; exact hi)]
      rcases hl with rfl | ⟨before, d, e, hds, rfl, hg⟩
      · exact List.prefix_rfl
      · rw [hds] at hi ⊢
        simp only [List.length_append, List.length_singleton] at hi
        by_cases hlast : index = before.length
        · simpa [hlast] using hg.comment
        · have earlier (x : Declaration) : (before ++ [x])[index]? = before[index]? :=
            List.getElem?_append_left (by omega)
          simp [earlier]
    · have beyond : o.linesAt (.comment index) = [] := by
        simp [Outline.linesAt, List.getElem?_eq_none (Nat.le_of_not_lt hi)]
      exact beyond ▸ List.nil_prefix

end Outline

namespace Scan

variable {s s' : Scan} {text line code doc : Text} {number : Int} {place : Place}

/-! ## Declarations and bullets -/

theorem register_grows (s : Scan) (d : Declaration) :
    s.outline.Grows (s.register d).outline 1 0 := by
  unfold register
  split
  · exact .refl _ 1 0
  · exact Outline.grows_add s.outline d

theorem flushPending_grows (s : Scan) : s.outline.Grows s.flushPending.outline 1 0 := by
  unfold flushPending
  split
  · exact .refl _ 1 0
  · exact register_grows { s with pending := { s.pending with lines := [] } } _

theorem startDeclaration_grows (s : Scan) (line : Text) (number : Int) :
    s.outline.Grows (s.startDeclaration line number).outline 2 0 := by
  have flushed : s.outline.Grows s.flushPending.endDeclaration.outline 1 0 := flushPending_grows s
  simp only [startDeclaration]
  split
  · exact flushed.trans (flushPending_grows { s.flushPending.endDeclaration with
      pending := { lines := [line], lineNumber := number } })
  · exact flushed.mono (by omega) (Nat.le_refl 0)

theorem continueDeclaration_grows (s : Scan) (line : Text) :
    s.outline.Grows (s.continueDeclaration line).outline 1 0 := by
  simp only [continueDeclaration]
  split
  · exact flushPending_grows
      { s with pending := { s.pending with lines := s.pending.lines ++ [line] } }
  · exact .refl _ 1 0

theorem declareLine_grows (s : Scan) (code doc : Text) (number : Int) (category : Category) :
    s.outline.Grows (s.declareLine code doc number category).outline 1 0 := by
  rw [declareLine_eq]
  exact register_grows s.endDeclaration _

theorem inlineDoc_grows (s : Scan) (code doc : Text) (number : Int) :
    s.outline.Grows (s.inlineDoc code doc number).outline 1 0 := by
  have dropped : ((s.dropPending number).inSection (s.inlineSection code)).outline = s.outline := by
    unfold dropPending
    split <;> rfl
  rw [inlineDoc_eq, ← dropped]
  exact declareLine_grows _ code doc number _

theorem importLine_grows (h : s.importLine text = some s') : s.outline.Grows s'.outline 1 1 := by
  have flushed : s.outline.Grows s.flushPending.outline 1 0 := flushPending_grows s
  have listed {o : Outline} {imports includes : List Text}
      (bullets : ∃ i j, imports = o.imports ++ i ∧ includes = o.includes ++ j ∧
        i.length + j.length ≤ 1) : o.Grows { o with imports, includes } 0 1 :=
    { Outline.Grows.refl o 0 0 with bullets }
  unfold importLine at h
  split at h
  · next bullet _ =>
    cases h
    exact flushed.trans (listed ⟨[bullet], [], rfl, (List.append_nil _).symm, Nat.le_refl 1⟩)
  · obtain ⟨bullet, -, h⟩ := Option.map_eq_some_iff.1 h
    cases h
    exact flushed.trans (listed ⟨[], [bullet], (List.append_nil _).symm, rfl, Nat.le_refl 1⟩)

theorem sectionLine_grows (s : Scan) (line : Text) (number : Int) :
    s.outline.Grows (s.sectionLine line number).2.outline 1 0 := by
  unfold sectionLine
  split
  · unfold sectionStart
    split
    · exact .refl _ 1 0
    · simp only
      split
      · exact .refl _ 1 0
      · split
        · exact declareLine_grows (s.endDeclaration.inSection {}) _ [] number _
        · exact .refl _ 1 0
  · unfold sectionEntry
    split
    · exact .refl _ 1 0
    · simp only
      split
      · exact declareLine_grows (s.inSection { s.openSection with
          indent := some (s.openSection.indent.getD line.indent) }) _ [] number _
      · exact .refl _ 1 0

theorem declarationLine_grows (s : Scan) (number : Int) (line : Text) :
    s.outline.Grows (s.declarationLine number line).outline 2 0 := by
  unfold declarationLine
  split
  · exact startDeclaration_grows (s.inSection { s.openSection with category := none }) line number
  · split
    · exact (continueDeclaration_grows s line).mono (by omega) (Nat.le_refl 0)
    · have filed : s.outline.Grows (s.sectionLine line number).2.outline 2 0 :=
        (sectionLine_grows s line number).mono (by omega) (Nat.le_refl 0)
      simp only
      split
      · exact filed
      · exact filed

/-! ## Texts -/

/-- Doc lines go to the end of the outline: to the last declaration, or to the top matter where
there is none. -/
theorem Sound.docPlace_cases (hs : s.Sound) (at_ : s.docPlace = some place) :
    (place = .topMatter ∧ s.outline.declarations = []) ∨
      ∃ before d, place = .comment before.length ∧ s.outline.declarations = before ++ [d] := by
  have last {i : Nat} {d : Declaration} (hi : i + 1 = s.outline.declarations.length)
      (hd : s.outline.declarations[i]? = some d) :
      ∃ before d, Place.comment i = .comment before.length ∧
        s.outline.declarations = before ++ [d] := by
    have hl : s.outline.declarations.getLast? = some d := by
      rw [List.getLast?_eq_getElem?, ← hi, Nat.add_sub_cancel, hd]
    obtain ⟨before, hb⟩ := List.getLast?_eq_some_iff.1 hl
    refine ⟨before, d, ?_, hb⟩
    rw [hb, List.length_append, List.length_singleton] at hi
    rw [Nat.succ.inj hi]
  unfold docPlace at at_
  split at at_
  · split at at_
    · next index hc =>
      cases at_
      obtain ⟨-, -, hi, d, hd, -⟩ := hs.current index hc
      exact .inr (last hi hd)
    · obtain ⟨-, ⟨rfl, hd⟩ | ⟨i, d, rfl, hi, hd, -⟩⟩ := hs.narrative place at_
      · exact .inl ⟨rfl, hd⟩
      · exact .inr (last hi hd)
  · next top =>
    cases at_
    exact .inl ⟨rfl, (hs.top (by simpa using top)).2.2.2.1⟩

theorem Sound.append_grows (hs : s.Sound) (at_ : s.docPlace = some place) (ls : List Text) :
    s.outline.Grows (s.edit place (· ++ ls)).outline 0 0 := by
  rcases hs.docPlace_cases at_ with ⟨rfl, hd⟩ | ⟨before, d, rfl, hd⟩
  · exact Outline.grows_topMatter hd ls
  · exact Outline.grows_modify hd (g := fun d => { d with comment := d.comment ++ ls })
      ⟨rfl, List.prefix_append _ _, List.prefix_rfl⟩

theorem Sound.closeFence_grows (hs : s.Sound) : s.outline.Grows s.closeFence.outline 0 0 := by
  rcases hs.closeFence_cases with ⟨-, he⟩ | ⟨place, -, -, at_, he⟩ <;> rw [he]
  · exact .refl _ 0 0
  · exact hs.append_grows at_ _

/-- The examples of the current declaration grow. -/
theorem Sound.captured_grows (hs : s.Sound) (line : Text) :
    s.outline.Grows (s.captured line).2.outline 0 0 := by
  unfold captured
  split
  · unfold Scan.captureLine
    split
    · exact .refl _ 0 0
    · split
      · exact .refl _ 0 0
      · next index hc =>
        obtain ⟨before, d, hd, rfl, -⟩ := hs.current_concat hc
        split
        · refine Outline.grows_modify hd ?_
          split
          · exact .refl d
          · exact ⟨rfl, List.prefix_rfl, List.prefix_append _ _⟩
        · exact Outline.grows_modify hd ⟨rfl, List.prefix_rfl, List.prefix_append _ _⟩
  · exact .refl _ 0 0

/-- The line is an underline, and makes a heading of the last line where doc lines go. -/
structure HeadsLast (line : Text) (s s' : Scan) (place : Place) (above : Text) : Prop where
  doc : Line.isDoc line = true
  underline : Line.underlineLevel (Line.docText line) ≠ 0
  inCode : s.inCode = true
  closed : s.fence.isOpen = false
  at_ : s.docPlace = some place
  last : (s.outline.linesAt place).getLast? = some above
  text : above.isBlankText = false
  plain : Text.startsWith fenceMark above = false
  outline : s'.outline = s.outline.replaceLast place
    (headingLine (Line.underlineLevel (Line.docText line) + headingOffset place) above)
  stays : s'.docPlace = some place

/-- What the line does to the outline: it lets it grow, or makes a heading. -/
def Advances (line : Text) (s s' : Scan) (k m : Nat) : Prop :=
  s.outline.Grows s'.outline k m ∨ ∃ place above, HeadsLast line s s' place above

theorem HeadsLast.of_same {s1 : Scan} {above : Text} (h : HeadsLast line s1 s' place above)
    (outline : s1.outline = s.outline) (docPlace : s1.docPlace = s.docPlace)
    (fence : s1.fence = s.fence) (inCode : s1.inCode = s.inCode) :
    HeadsLast line s s' place above :=
  { doc := h.doc, underline := h.underline, inCode := inCode ▸ h.inCode, closed := fence ▸ h.closed,
    at_ := docPlace ▸ h.at_, last := outline ▸ h.last, text := h.text, plain := h.plain,
    outline := outline ▸ h.outline, stays := h.stays }

theorem docTextAt_grows (hs : s.Sound) (at_ : s.docPlace = some place) (text : Text) :
    s.outline.Grows (s.docTextAt place text).outline 0 0 ∨
      ∃ above, Line.underlineLevel text ≠ 0 ∧ (s.outline.linesAt place).getLast? = some above ∧
        above.isBlankText = false ∧ Text.startsWith fenceMark above = false ∧
        (s.docTextAt place text).outline = s.outline.replaceLast place
          (headingLine (Line.underlineLevel text + headingOffset place) above) ∧
        (s.docTextAt place text).docPlace = some place := by
  simp only [docTextAt]
  split
  · split
    · exact .inl (.refl _ 0 0)
    · exact .inl (hs.append_grows at_ [text])
  · next above hl =>
    split
    · next hc =>
      simp only [Bool.and_eq_true, bne_iff_ne, ne_eq, Bool.not_eq_true'] at hc
      exact .inr ⟨above, hc.1.1, hl, hc.1.2, hc.2, rfl, at_⟩
    · exact .inl (hs.append_grows at_ [text])

theorem commentPlace_of_docPlace (hi : s.inCode = true) (at_ : s.docPlace = some place) :
    s.commentPlace = (place, s) := by
  simp only [docPlace, hi, if_true] at at_
  cases hc : s.current with
  | some index =>
    simp only [hc, Option.some.injEq] at at_
    simp only [commentPlace, hc, at_]
  | none =>
    simp only [hc] at at_
    simp only [commentPlace, hc, at_]

/-- A new narrative begins behind a blank line, or is a new declaration. -/
theorem commentPlace_begun (hs : s.Sound) (hi : s.inCode = true) (hn : s.docPlace = none) :
    s.outline.Grows s.commentPlace.2.outline 1 0 ∧
      ∀ above, (s.commentPlace.2.outline.linesAt s.commentPlace.1).getLast? = some above →
        above.isBlankText = true := by
  obtain ⟨hc, hn⟩ : s.current = none ∧ s.narrative = none := by
    simp only [docPlace, hi, if_true] at hn
    split at hn
    · cases hn
    · next hc => exact ⟨hc, hn⟩
  simp only [commentPlace, hc, hn]
  split
  · next hl =>
    have hd : s.outline.declarations = [] := by simpa [hl] using hs.lastCategory.symm
    split
    · refine ⟨(Outline.grows_topMatter hd [[]]).mono (Nat.zero_le 1) (Nat.le_refl 0), ?_⟩
      intro above hl
      have hl : (s.outline.topMatter ++ [[]]).getLast? = some above := hl
      rw [List.getLast?_concat] at hl
      exact Option.some.inj hl ▸ rfl
    · next hlast =>
      refine ⟨.refl _ 1 0, fun above hl => ?_⟩
      cases above with
      | nil => rfl
      | cons c t => exact (hlast c t hl).elim
  · refine ⟨Outline.grows_add s.outline _, fun above hl => ?_⟩
    simp [Outline.linesAt, Outline.add] at hl

theorem takeDoc_grows (hs : s.Sound) (idle : s.Idle) (pending : s.pending.lines = [])
    (text : Text) :
    s.outline.Grows (s.takeDoc text).outline (if s.docPlace.isSome then 0 else 1) 0 ∨
      ∃ place above, Line.underlineLevel text ≠ 0 ∧ s.docPlace = some place ∧
        (s.outline.linesAt place).getLast? = some above ∧ above.isBlankText = false ∧
        Text.startsWith fenceMark above = false ∧
        (s.takeDoc text).outline = s.outline.replaceLast place
          (headingLine (Line.underlineLevel text + headingOffset place) above) ∧
        (s.takeDoc text).docPlace = some place := by
  obtain ⟨hi, hf, hx⟩ := idle
  unfold takeDoc
  split
  · next ha =>
    cases hp : s.docPlace with
    | some place =>
      rw [commentPlace_of_docPlace hi hp]
      dsimp only
      split
      · exact .inl (hs.append_grows hp _)
      · rcases docTextAt_grows hs hp text with h | ⟨above, h⟩
        · exact .inl h
        · exact .inr ⟨place, above, h.1, rfl, h.2⟩
    | none =>
      have begun := commentPlace_begun hs hi hp
      have free : s.Free := ⟨hf, hs.code hi, pending, hx, ha⟩
      obtain ⟨moves, -, -, at_⟩ := commentPlace_spec hi free text
      have hs' := docMoves_sound hs moves
      refine .inl ?_
      split
      · exact begun.1.trans (hs'.append_grows at_ _)
      · rcases docTextAt_grows hs' at_ text with h | ⟨above, -, hl, hb, -⟩
        · exact begun.1.trans h
        · rw [begun.2 above hl] at hb
          cases hb
  · exact .inl (.refl _ _ 0)

/-- Doc lines go to a declaration that is registered, and nowhere where it is left out. -/
theorem register_docPlace (hi : s.inCode = true) (hn : s.narrative = none) (d : Declaration) :
    ((s.register d).admitting = false ∧ (s.register d).docPlace = none) ∨
      ((s.register d).docPlace = some (.comment s.outline.declarations.length) ∧
        (s.register d).outline.linesAt (.comment s.outline.declarations.length) = d.comment) := by
  unfold register
  split
  · exact .inl ⟨rfl, by simp [docPlace, note, hi, hn]⟩
  · exact .inr ⟨by simp [docPlace, hi], by simp [Outline.linesAt, Outline.add]⟩

/-- Behind the end of a signature there is nothing yet that a heading could be made of. -/
theorem flushPending_begun (hs : s.Sound) (h : s.pending.lines ≠ []) (hi : s.inCode = true) :
    (s.flushPending.admitting = false ∨ s.flushPending.docPlace.isSome = true) ∧
      ∀ place, s.flushPending.docPlace = some place →
        s.flushPending.outline.linesAt place = [] := by
  obtain ⟨-, hn, -⟩ := hs.pending h
  unfold flushPending
  split
  · next hl => exact (h hl).elim
  · next first rest _ =>
    let cleared : Scan := { s with pending := { s.pending with lines := [] } }
    rcases register_docPlace (s := cleared) hi hn
      { lineNumber := s.pending.lineNumber
        isExported := (first :: rest).any Line.isExported
        category := .ofRoutine (Line.routine? first)
        heading := some (Line.declarationHeading first)
        code := first.strip :: rest.map Text.stripRight } with ⟨ha, hp⟩ | ⟨hp, hl⟩
    · exact ⟨.inl ha, fun place h => absurd (h.symm.trans hp) (Option.some_ne_none place)⟩
    · exact ⟨.inr (hp ▸ rfl), fun place h => Option.some.inj (hp.symm.trans h) ▸ hl⟩

theorem docLine_grows (hs : s.Sound) (idle : s.Idle) (hd : Line.isDoc line = true) :
    Advances line s (s.docLine line) 1 0 := by
  rw [docLine_eq]
  split
  · exact .inl (.refl _ 1 0)
  · rcases takeDoc_grows hs.flushPending idle.flushPending (by simp) (Line.docText line) with
      h | ⟨place, above, hu, at_, hl, hb, hf, he, hp'⟩
    · refine .inl ?_
      by_cases hp : s.pending.lines = []
      · rw [flushPending_of_empty hp] at h ⊢
        exact h.mono (by split <;> omega) (Nat.le_refl 0)
      · rcases (flushPending_begun hs hp idle.1).1 with ha | ha
        · rw [takeDoc, if_neg (by simp [ha])]
          exact flushPending_grows s
        · rw [if_pos ha] at h
          exact (flushPending_grows s).trans h
    · by_cases hp : s.pending.lines = []
      · rw [flushPending_of_empty hp] at at_ hl he hp' ⊢
        exact .inr ⟨place, above, hd, hu, idle.1, idle.2.1, at_, hl, hb, hf, he, hp'⟩
      · rw [(flushPending_begun hs hp idle.1).2 place at_] at hl
        cases hl

/-! ## Lines -/

theorem textLine_grows (hs : s.Sound) (idle : s.Idle) (number : Int) (line : Text) :
    Advances line s (s.textLine number line) 2 1 := by
  unfold textLine
  split
  · next hd =>
    exact (docLine_grows hs idle hd).imp_left fun h => h.mono (by omega) (Nat.zero_le 1)
  · refine .inl ?_
    split
    · exact (inlineDoc_grows s _ _ number).mono (by omega) (Nat.zero_le 1)
    · split
      · next h => exact (importLine_grows h).mono (by omega) (Nat.le_refl 1)
      · exact (declarationLine_grows s number line).mono (Nat.le_refl 2) (Nat.zero_le 1)

theorem bodyLine_grows (hs : s.Sound) (idle : s.Idle) (number : Int) (line : Text) :
    Advances line s (s.bodyLine number line) 2 1 := by
  rw [bodyLine_eq]
  split
  · exact .inl ((flushPending_grows s).mono (by omega) (Nat.zero_le 1))
  · unfold atMargin
    split
    · rcases textLine_grows hs.accept idle number line with h | ⟨place, above, h⟩
      · exact .inl h
      · exact .inr ⟨place, above, h.of_same rfl rfl rfl rfl⟩
    · exact textLine_grows hs idle number line

/-- What a code block writes, and at its end the last line where doc lines go. -/
theorem Sound.fencedLine_grows (hs : s.Sound) (ho : s.fence.isOpen = true) (line : Text) :
    ∃ taken s', s.fencedLine line = .ok (taken, s') ∧ s.outline.Grows s'.outline 0 0 ∧
      (taken = true → s'.fence.isOpen = true) ∧
      (taken = false → ∀ place above, s'.docPlace = some place →
        (s'.outline.linesAt place).getLast? = some above →
        above.isBlankText = true ∨ Text.startsWith fenceMark above = true) := by
  obtain ⟨place, hp⟩ := Option.isSome_iff_exists.1 (hs.fence.placed ho)
  have at_ := hs.docPlace_of_open ho hp
  have has := hs.has_docPlace at_
  have ended {written : List Text} (hw : written = [fenceMark] ∨ written = [fenceMark, []])
      (fence : Fence) : ∀ q above, docPlace { s.edit place (· ++ written) with fence } = some q →
      ((s.edit place (· ++ written)).outline.linesAt q).getLast? = some above →
      above.isBlankText = true ∨ Text.startsWith fenceMark above = true := by
    intro q above hq hl
    obtain rfl : place = q := Option.some.inj (at_.symm.trans hq)
    rw [Scan.edit, Outline.linesAt_modifyLines has, if_pos rfl] at hl
    rcases hw with rfl | rfl
    · rw [List.getLast?_concat] at hl
      exact .inr (Option.some.inj hl ▸ rfl)
    · simp only [List.getLast?_append, List.getLast?_cons_cons, List.getLast?_singleton,
        Option.some_or, Option.some.injEq] at hl
      exact .inl (hl ▸ rfl)
  cases hd : Line.isDoc line with
  | true =>
    obtain ⟨taken, written, fence, he, hf, hend, -⟩ :=
      answersFenced hs.fence ho hp (Line.docText line)
    exact ⟨taken, _, fencedLine_of_fed hs ho hd he, hs.append_grows at_ written, hf.trans,
      fun ht => ended (hend ht) fence⟩
  | false =>
    refine ⟨false, _, fencedLine_of_code hd, hs.closeFence_grows,
      fun taken => absurd taken Bool.false_ne_true, fun _ => ?_⟩
    rw [closeFence_of_open ho hp]
    refine ended ?_ {}
    unfold Fence.closing
    split
    · exact .inr rfl
    · exact .inl rfl

theorem plainLine_grows (hs : s.Sound) (hr : s.Reading) (number : Int) (line : Text) :
    ∃ s', s.plainLine number line = .ok s' ∧ Advances line s s' 2 1 := by
  cases ho : s.fence.isOpen with
  | false =>
    exact ⟨_, plainLine_of_refused (fencedLine_of_closed ho),
      bodyLine_grows hs ⟨hr.1, ho, hr.2⟩ number line⟩
  | true =>
    obtain ⟨taken, s1, he, hm, idle⟩ := fencedLine_reading hs hr line
    obtain ⟨_, _, he', hg, -, hend⟩ := hs.fencedLine_grows ho line
    obtain ⟨rfl, rfl⟩ := Prod.mk.inj (Except.ok.inj (he.symm.trans he'))
    cases taken with
    | true => exact ⟨s1, plainLine_of_taken he, .inl (hg.mono (Nat.zero_le 2) (Nat.zero_le 1))⟩
    | false =>
      refine ⟨_, plainLine_of_refused he, .inl ?_⟩
      rcases bodyLine_grows (docMoves_sound hs hm) (idle rfl) number line with h | ⟨place, above, h⟩
      · simpa using hg.trans h
      · -- The block has just ended, and no heading is made of its last line.
        rcases hend rfl place above h.at_ h.last with hb | hf
        · rw [h.text] at hb
          cases hb
        · rw [h.plain] at hf
          cases hf

/-- A line that does not belong to the examples has at most ended them. -/
theorem captured_refused (h : (s.captured line).1 = false) :
    ∃ capture, (s.captured line).2 = { s with capture } := by
  unfold captured at h ⊢
  split at h
  · next ha =>
    rw [if_pos ha]
    unfold captureLine at h ⊢
    split at h
    · next he =>
      rw [if_pos he]
      exact ⟨_, rfl⟩
    · split at h
      · cases h
      · split at h <;> cases h
  · next ha =>
    rw [if_neg ha]
    exact ⟨s.capture, rfl⟩

/-- **A line of code** lets the outline grow by at most two declarations and a bullet, or makes a
heading. -/
theorem codeLine_grows (hs : s.Sound) (hi : s.inCode = true) (number : Int) (line : Text) :
    ∃ s', s.codeLine number line = .ok s' ∧ Advances line s s' 2 1 := by
  have captured := hs.captured_grows line
  rw [codeLine_eq]
  split
  · exact ⟨_, rfl, .inl (captured.mono (Nat.zero_le 2) (Nat.zero_le 1))⟩
  · next hc =>
    have hc : (s.captured line).1 = false := by simpa using hc
    obtain ⟨s', he, h⟩ := plainLine_grows (captured_moves hs number line).2
      (captured_reading hi hc) number line
    obtain ⟨capture, same⟩ := captured_refused hc
    refine ⟨s', he, ?_⟩
    rw [same] at h
    exact h.imp_right fun ⟨place, above, h⟩ => ⟨place, above, h.of_same rfl rfl rfl rfl⟩

/-! ## The top matter -/

/-- Lines are added to the top matter, before the code begins. -/
structure AddsTop (s s' : Scan) : Prop where
  inCode : s'.inCode = s.inCode
  added : ∃ ls, s'.outline = s.outline.modifyLines .topMatter (· ++ ls)

theorem AddsTop.of_same (inCode : s'.inCode = s.inCode) (outline : s'.outline = s.outline) :
    AddsTop s s' :=
  ⟨inCode, [], by rw [Outline.modifyLines_append_nil, outline]⟩

theorem AddsTop.refl (s : Scan) : AddsTop s s := .of_same rfl rfl

theorem AddsTop.trans {s1 : Scan} (h : AddsTop s s1) (h' : AddsTop s1 s') : AddsTop s s' := by
  obtain ⟨ls, hls⟩ := h.added
  obtain ⟨ls', hls'⟩ := h'.added
  refine ⟨h'.inCode.trans h.inCode, ls ++ ls', ?_⟩
  rw [hls', hls, Outline.modifyLines_modifyLines]
  simp [Function.comp_def, List.append_assoc]

theorem AddsTop.grows (h : AddsTop s s') (hd : s.outline.declarations = []) :
    s.outline.Grows s'.outline 0 0 := by
  obtain ⟨ls, hls⟩ := h.added
  exact hls ▸ Outline.grows_topMatter hd ls

theorem commitHeld_addsTop (s : Scan) : AddsTop s s.commitHeld := by
  unfold commitHeld
  split
  · exact .refl s
  · next line _ => exact ⟨rfl, [line], rfl⟩

theorem topText_addsTop (s : Scan) (text : Text) : AddsTop s (s.topText text) := by
  simp only [topText]
  split
  · exact (commitHeld_addsTop s).trans ⟨rfl, _, rfl⟩
  · split
    · exact .of_same rfl rfl
    · next above _ =>
      split
      · exact ⟨rfl, _, rfl⟩
      · exact ⟨rfl, [above], rfl⟩

theorem topLine_addsTop (hs : s.Sound) (top : s.inCode = false) (text : Text) :
    ∃ s', s.topLine text = .ok s' ∧ AddsTop s s' := by
  unfold topLine
  split
  · next ho =>
    have place : s.fence.place = some .topMatter := by
      rw [(hs.fence_open ho).2.2.2.2, docPlace, top]
      rfl
    obtain ⟨taken, written, fence, he, -⟩ := answersFenced hs.fence ho place text
    have fed : AddsTop s { s.edit .topMatter (· ++ written) with fence } := ⟨rfl, written, rfl⟩
    rw [he]
    cases taken with
    | true => exact ⟨_, rfl, fed⟩
    | false => exact ⟨_, rfl, fed.trans (topText_addsTop _ text)⟩
  · exact ⟨_, rfl, topText_addsTop s text⟩

theorem topDoc_addsTop (hs : s.Sound) (top : s.inCode = false) (line : Text) :
    ∃ taken s', s.topDoc line = .ok (taken, s') ∧ AddsTop s s' := by
  unfold topDoc
  split
  · obtain ⟨s', he, h⟩ := topLine_addsTop hs top (Line.docText line)
    rw [he]
    exact ⟨true, s', rfl, h⟩
  · split
    · exact ⟨_, s, rfl, .refl s⟩
    · exact ⟨_, s, rfl, .refl s⟩

theorem topComment_addsTop (hs : s.Sound) (top : s.inCode = false) (line : Text) :
    ∃ s', s.topComment line = .ok s' ∧ AddsTop s s' := by
  unfold topComment
  split
  · split
    · exact topLine_addsTop hs top _
    · let note := '*' :: (Line.commentText line ++ ['*'])
      have noted : AddsTop s (s.appendLine .topMatter note) := ⟨rfl, [note], rfl⟩
      exact ⟨_, rfl, noted.trans ⟨rfl, [[]], rfl⟩⟩
  · exact ⟨s, rfl, .refl s⟩

theorem takeTop_addsTop (hs : s.Sound) (top : s.inCode = false) (line : Text) :
    ∃ taken s', s.takeTop line = .ok (taken, s') ∧ AddsTop s s' := by
  have begun : AddsTop s { s with docSeen := true } := .of_same rfl rfl
  unfold takeTop
  split
  · exact topDoc_addsTop hs top line
  · split
    · obtain ⟨taken, s', he, h⟩ := topDoc_addsTop (s := { s with docSeen := true }) { hs with } top
        line
      exact ⟨taken, s', he, begun.trans h⟩
    · split
      · obtain ⟨s', he, h⟩ := topComment_addsTop hs top line
        rw [he]
        exact ⟨true, s', rfl, h⟩
      · split
        · exact ⟨true, s, rfl, .refl s⟩
        · exact ⟨false, _, rfl, begun⟩

/-- The code begins behind what was held back and the end of the code block. -/
theorem enterCode_grows (hs : s.Sound) (top : s.inCode = false) (number : Int) :
    s.outline.Grows (s.enterCode number).outline 0 0 := by
  have hd : s.outline.declarations = [] := (hs.top top).2.2.2.1
  exact ((commitHeld_addsTop s).grows hd).trans hs.commitHeld.closeFence_grows

theorem enterCode_docPlace (hs : s.Sound) (top : s.inCode = false) (number : Int) :
    (s.enterCode number).inCode = true ∧ (s.enterCode number).docPlace = none := by
  obtain ⟨-, hc, hn, -⟩ := hs.top top
  have frame : s.commitHeld.closeFence.current = none ∧
      s.commitHeld.closeFence.narrative = none := by
    have held : s.commitHeld.current = s.current ∧ s.commitHeld.narrative = s.narrative := by
      unfold commitHeld
      split <;> exact ⟨rfl, rfl⟩
    rcases hs.commitHeld.closeFence_cases with ⟨-, he⟩ | ⟨place, -, -, -, he⟩ <;> rw [he]
    · exact ⟨held.1.trans hc, held.2.trans hn⟩
    · exact ⟨held.1.trans hc, held.2.trans hn⟩
  refine ⟨rfl, ?_⟩
  simp [enterCode, note, docPlace, frame]

/-- **A line of the source** lets the outline grow by at most two declarations and a bullet, or
makes a heading. -/
theorem line_grows (hs : s.Sound) (hn : 1 ≤ number) (line : Text) :
    ∃ s', s.line number line = .ok s' ∧ Advances line s s' 2 1 := by
  cases line_cases hs hn line with
  | guard _ read => exact ⟨s, read, .inl (.refl _ 2 1)⟩
  | code inCode read => exact read ▸ codeLine_grows hs inCode number line
  | top top taken read =>
    have hd : s.outline.declarations = [] := (hs.top top).2.2.2.1
    obtain ⟨_, _, he, h⟩ := takeTop_addsTop hs top line
    obtain ⟨-, rfl⟩ := Prod.mk.inj (Except.ok.inj (taken.symm.trans he))
    exact ⟨_, read, .inl ((h.grows hd).mono (Nat.zero_le 2) (Nat.zero_le 1))⟩
  | first top _ begun entered read =>
    obtain ⟨s2, he, h⟩ := codeLine_grows entered rfl number line
    refine ⟨s2, read.trans he, .inl ?_⟩
    rcases h with h | ⟨place, above, h⟩
    · simpa using (enterCode_grows begun top number).trans h
    · -- Where the code begins doc lines have no place yet.
      have none_yet := (enterCode_docPlace begun top number).2
      exact nomatch none_yet.symm.trans h.at_

theorem finish_grows (hs : s.Sound) : s.outline.Grows s.finish.outline 1 0 := by
  simp only [finish]
  split
  · exact hs.closeFence_grows.trans (flushPending_grows s.closeFence)
  · next hi =>
    have top : s.inCode = false := by simpa using hi
    have committed := (commitHeld_addsTop s).grows (hs.top top).2.2.2.1
    exact (committed.trans hs.commitHeld.closeFence_grows).trans (flushPending_grows _)

end Scan

end NimMarkdown
