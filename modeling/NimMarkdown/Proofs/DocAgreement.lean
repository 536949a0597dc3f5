import NimMarkdown.Proofs.DeclarationDoc

/-!
# The same doc texts at both places

A doc text may stand in the doc comment of the module or below a declaration.
`docs_agree`: where no text is a note to the authors or has a fence in it and no
two underlines follow each other, both places get the same items, written as
`DocItem.line` in the top matter and as `commentLines` in the comment.
-/

namespace NimMarkdown

namespace Scan

theorem sourceLines_joinLines {ls : List Text} (hn : ls ≠ [])
    (h : ∀ line ∈ ls, '\n' ∉ line ∧ '\r' ∉ line) : sourceLines (Text.joinLines ls) = ls := by
  rw [sourceLines, Text.splitLines_joinLines hn fun line hl => (h line hl).1]
  calc ls.map Text.dropReturns = ls.map id := by
        refine List.map_congr_left fun line hl => dropEndWhile_eq_self fun c hc => ?_
        have hr : c ≠ '\r' := fun hr => (h line hl).2 (hr ▸ hc)
        simpa using hr
    _ = ls := List.map_id ls

theorem unbroken_append {first second : Text} (h1 : '\n' ∉ first ∧ '\r' ∉ first)
    (h2 : '\n' ∉ second ∧ '\r' ∉ second) :
    '\n' ∉ first ++ second ∧ '\r' ∉ first ++ second :=
  ⟨fun h => (List.mem_append.1 h).elim h1.1 h2.1, fun h => (List.mem_append.1 h).elim h1.2 h2.2⟩

end Scan

/-! ## The module's doc comment -/

/-- A text in the doc comment of the module. -/
def moduleDocLine (t : Text) : Text := "## ".toList ++ t

/-- A text below a declaration. -/
def declarationDocLine (t : Text) : Text := "  ## ".toList ++ t

section

variable {t : Text} {ts ls : List Text}

theorem docText_moduleDocLine (t : Text) : Line.docText (moduleDocLine t) = t := rfl

theorem isModuleDoc_moduleDocLine (t : Text) : Line.isModuleDoc (moduleDocLine t) = true := rfl

theorem docTextsFrom_moduleDocLines (ts : List Text) :
    docTextsFrom (ts.map moduleDocLine) = ts := by
  induction ts with
  | nil => rfl
  | cons t ts ih =>
    rw [List.map_cons, docTextsFrom_doc (isModuleDoc_moduleDocLine t), ih, docText_moduleDocLine]

/-- Where every line is one of the doc comment, the top matter has its items. -/
theorem topMatterOf_moduleDocLines (ts : List Text) :
    topMatterOf (ts.map moduleDocLine) = (docItems ts).map DocItem.line := by
  have all : (ts.map moduleDocLine).filter (!Line.isMainGuard ·) = ts.map moduleDocLine := by
    refine List.filter_eq_self.2 fun line hl => ?_
    obtain ⟨t, -, rfl⟩ := List.mem_map.1 hl
    simp [Line.isMainGuard_of_isDoc (show Line.isDoc (moduleDocLine t) = true from rfl)]
  have texts : copyrightLines (ts.map moduleDocLine) = [] ∧
      moduleDocTexts (ts.map moduleDocLine) = ts := by
    cases ts with
    | nil => exact ⟨rfl, rfl⟩
    | cons t ts =>
      have doc := isModuleDoc_moduleDocLine t
      have hn := isPreamble_of_doc doc
      refine ⟨copyrightLines_end hn _, ?_⟩
      rw [List.map_cons, moduleDocTexts_end hn, if_pos doc]
      exact docTextsFrom_moduleDocLines (t :: ts)
  simp [topMatterOf, all, texts, copyrightNote]

end

namespace Scan

variable {s t e : Scan} {line : Text} {ls ts : List Text} {n : Nat}

/-- The top matter takes every line of the doc comment. -/
theorem taken_of_isModuleDoc (hd : Line.isModuleDoc line = true) {taken : Bool}
    (h : s.takeTop line = .ok (taken, t)) : taken = true := by
  have hd : Text.startsWith Line.docMarker line = true := hd
  have topDoc {u : Scan} (h : u.topDoc line = .ok (taken, t)) : taken = true := by
    rw [Scan.topDoc, if_pos hd] at h
    cases he : u.topLine (Line.docText line) with
    | error failure =>
      rw [he] at h
      cases h
    | ok v =>
      rw [he] at h
      cases h
      rfl
  unfold takeTop at h
  split at h
  · exact topDoc h
  · exact topDoc h

theorem EntersCode.refuses (h : EntersCode s n ls e) :
    ∃ line ∈ ls, Line.isModuleDoc line = false := by
  induction h with
  | @here s t n line rest top guard refused =>
    refine ⟨line, List.mem_cons_self, ?_⟩
    cases hd : Line.isModuleDoc line with
    | false => rfl
    | true => cases taken_of_isModuleDoc hd refused
  | later _ _ _ ih =>
    obtain ⟨line, hm, hd⟩ := ih
    exact ⟨line, List.mem_cons_of_mem _ hm, hd⟩

theorem source_moduleDocLines (exportedOnly : Bool) {ts : List Text}
    (h : ∀ t ∈ ts, '\n' ∉ t ∧ '\r' ∉ t) :
    ∃ s, source exportedOnly (Text.joinLines (ts.map moduleDocLine)) = .ok s ∧
      s.outline.topMatter = (docItems ts).map DocItem.line := by
  cases ts with
  | nil =>
    rw [docItems]
    cases exportedOnly <;> exact ⟨_, rfl, rfl⟩
  | cons t ts =>
    have lines : sourceLines (Text.joinLines ((t :: ts).map moduleDocLine)) =
        (t :: ts).map moduleDocLine := by
      refine sourceLines_joinLines (by simp) fun line hl => ?_
      obtain ⟨u, hu, rfl⟩ := List.mem_map.1 hl
      exact unbroken_append (by decide) (h u hu)
    obtain ⟨s, hs, -⟩ := lines_ok exportedOnly ((t :: ts).map moduleDocLine)
    refine ⟨s.finish, source_of_lines (lines.symm ▸ hs), ?_⟩
    rcases (fresh_ahead exportedOnly _).run (Nat.le_refl 1) hs with stay | ⟨e, he⟩
    · rw [stay.finish, topMatterOf_moduleDocLines]
    · obtain ⟨line, hl, hd⟩ := he.refuses
      obtain ⟨u, -, rfl⟩ := List.mem_map.1 hl
      cases (isModuleDoc_moduleDocLine u).symm.trans hd

/-! ## The comment of a declaration -/

/-- The line of the declaration that the texts stand below. -/
def procLine : Text := "proc p*() =".toList

/-- The declaration, before its comment is read. -/
def procHead : Declaration where
  lineNumber := 1
  isExported := true
  category := .routine .proc
  heading := some "proc p*".toList
  code := [procLine]

/-- Below the declaration, its comment is to be written. -/
theorem line_procLine (exportedOnly : Bool) (ts : List Text) :
    ∃ s, (fresh exportedOnly).line 1 procLine = .ok s ∧
      Written (docItems ts) [procHead] 0 s [] none ts := by
  have read : ∃ s, (fresh exportedOnly).line 1 procLine = .ok s ∧ s.Commenting [procHead] 0 ∧
      s.fence = {} ∧ s.outline.linesAt (.comment 0) = [] := by
    cases exportedOnly <;> exact ⟨_, rfl, ⟨rfl, rfl, rfl, rfl, rfl, rfl, Nat.zero_lt_one⟩, rfl, rfl⟩
  obtain ⟨s, he, hc, hf, hl⟩ := read
  refine ⟨s, he, hc, hl, ?_, nofun, ?_, ?_⟩
  · rw [hf, owed_closed rfl]
    rfl
  · intro ho
    rw [hf] at ho
    cases ho
  · intro _ _ _ _ _ last hlast
    rw [hl] at hlast
    cases hlast

theorem source_declarationDocLines (exportedOnly : Bool) {ts : List Text}
    (h : ∀ t ∈ ts, '\n' ∉ t ∧ '\r' ∉ t) (todo : ∀ t ∈ ts, Line.isTodo t = false)
    (plain : ∀ t ∈ ts, isFenceLine t = false)
    (apart : ts.IsChain fun t u => Line.underlineLevel t ≠ 0 → Line.underlineLevel u = 0) :
    ∃ s d, source exportedOnly (Text.joinLines (procLine :: ts.map declarationDocLine)) = .ok s ∧
      s.outline.declarations = [d] ∧ d.head = procHead ∧
      d.comment = commentLines (docItems ts) := by
  have lines : sourceLines (Text.joinLines (procLine :: ts.map declarationDocLine)) =
      procLine :: ts.map declarationDocLine := by
    refine sourceLines_joinLines (by simp) fun line hl => ?_
    rcases List.mem_cons.1 hl with rfl | hl
    · decide
    · obtain ⟨u, hu, rfl⟩ := List.mem_map.1 hl
      exact unbroken_append (by decide) (h u hu)
  have texts : (ts.map declarationDocLine).map Line.docText = ts := by
    rw [List.map_map]
    exact List.map_id ts
  obtain ⟨s0, he0, h0⟩ := line_procLine exportedOnly ts
  obtain ⟨s0', he0', hm⟩ := line_moves (fresh_sound exportedOnly) (Int.le_refl 1) procLine
  obtain rfl := Except.ok.inj (he0.symm.trans he0')
  have hs0 := hm.sound (Int.le_refl 1) (fresh_sound exportedOnly)
  have doc : ∀ line ∈ ts.map declarationDocLine, Line.isDoc line = true := by
    intro line hl
    obtain ⟨u, -, rfl⟩ := List.mem_map.1 hl
    rfl
  rw [← texts] at todo plain apart
  have h0' : Written (docItems ts) [procHead] 0 s0 [] none
      ((ts.map declarationDocLine).map Line.docText) := by
    rw [texts]
    exact h0
  obtain ⟨s, done, held, he, hs, hw⟩ := h0'.docLines _ hs0 doc todo plain apart (Nat.le_succ 1)
  obtain ⟨hl, hh⟩ := hw.finish hs
  have run : (fresh exportedOnly).lines 1
      (sourceLines (Text.joinLines (procLine :: ts.map declarationDocLine))) = .ok s := by
    rw [lines, Scan.lines, show ((1 : Nat) : Int) = 1 from rfl, he0]
    exact he
  obtain ⟨d, hd, head⟩ : ∃ d, s.finish.outline.declarations = [d] ∧ d.head = procHead := by
    simpa [Outline.heads, List.map_eq_singleton_iff] using hh
  refine ⟨s.finish, d, source_of_lines run, hd, head, ?_⟩
  simpa [Outline.linesAt, hd] using hl

end Scan

namespace Source

/-- **Both formats of a doc comment agree.** The same texts stand in the doc comment of a module,
and in another source below a declaration. The comment of the declaration has the lines of the
module's top matter, without the blank ones at the start, and with headings three levels deeper. -/
theorem docs_agree {settings : Settings} {options : Options}
    (valid : settings.validate = .ok options) {ts : List Text}
    (lines : ∀ t ∈ ts, '\n' ∉ t ∧ '\r' ∉ t) (todo : ∀ t ∈ ts, Line.isTodo t = false)
    (fences : ∀ t ∈ ts, ¬fenceMark <:+: t)
    (apart : ts.IsChain fun t u => ¬(0 < Line.underlineLevel t ∧ 0 < Line.underlineLevel u)) :
    ∃ a b d, outline settings (Text.joinLines (ts.map ("## ".toList ++ ·))) = .ok a ∧
      outline settings (Text.joinLines ("proc p*() =".toList :: ts.map ("  ## ".toList ++ ·))) =
        .ok b ∧
      b.ofCategory (.routine .proc) = [d] ∧
      a.topMatter = (docItems ts).map DocItem.line ∧
      d.comment = ((docItems ts).dropWhile (·.line.isBlankText)).map DocItem.nested := by
  have plain : ∀ t ∈ ts, isFenceLine t = false := by
    intro t ht
    cases hf : isFenceLine t with
    | false => rfl
    | true => exact absurd (List.isPrefixOf_iff_prefix.1 hf).isInfix (fences t ht)
  have single : ts.IsChain fun t u => Line.underlineLevel t ≠ 0 → Line.underlineLevel u = 0 :=
    apart.imp fun t u h => by omega
  obtain ⟨sa, ha, hta⟩ := Scan.source_moduleDocLines (options.on .exportedOnly) lines
  obtain ⟨sb, d, hb, hd, head, hc⟩ :=
    Scan.source_declarationDocLines (options.on .exportedOnly) lines todo plain single
  refine ⟨sa.outline, sb.outline, d, outline_of_source valid ha, outline_of_source valid hb, ?_,
    hta, hc⟩
  have category : d.category = .routine .proc := congrArg Declaration.category head
  simp [Outline.ofCategory, hd, category]

/-- Texts with headings, a code block that a blank line and an underline end, and a blank start. -/
def mixedTexts : List Text :=
  ["", "Title", "=====", "Text", "----", ".. code-block:: nim", "", "  echo 1", "    echo 2", "",
    "---", "", "Rest"].map String.toList

theorem docs_agree_mixedTexts :
    Settings.byDefault.validate = .ok Settings.byDefault.toOptions ∧
      (∀ t ∈ mixedTexts, '\n' ∉ t ∧ '\r' ∉ t) ∧ (∀ t ∈ mixedTexts, Line.isTodo t = false) ∧
      (∀ t ∈ mixedTexts, ¬fenceMark <:+: t) ∧
      (mixedTexts.IsChain fun t u => ¬(0 < Line.underlineLevel t ∧ 0 < Line.underlineLevel u)) ∧
      ∃ a b d, outline .byDefault (Text.joinLines (mixedTexts.map ("## ".toList ++ ·))) = .ok a ∧
        outline .byDefault
          (Text.joinLines ("proc p*() =".toList :: mixedTexts.map ("  ## ".toList ++ ·))) = .ok b ∧
        b.ofCategory (.routine .proc) = [d] ∧
        a.topMatter = (docItems mixedTexts).map DocItem.line ∧
        d.comment = ((docItems mixedTexts).dropWhile (·.line.isBlankText)).map DocItem.nested := by
  have lines : ∀ t ∈ mixedTexts, '\n' ∉ t ∧ '\r' ∉ t := by decide +kernel
  have todo : ∀ t ∈ mixedTexts, Line.isTodo t = false := by decide +kernel
  have fences : ∀ t ∈ mixedTexts, ¬fenceMark <:+: t := by decide +kernel
  have apart : mixedTexts.IsChain fun t u =>
      ¬(0 < Line.underlineLevel t ∧ 0 < Line.underlineLevel u) := by decide +kernel
  exact ⟨rfl, lines, todo, fences, apart, docs_agree rfl lines todo fences apart⟩

end Source

end NimMarkdown
