import Mathlib.Data.List.ReduceOption
import NimMarkdown.Proofs.Growth
import NimMarkdown.Proofs.Readings

/-!
# Imports and includes of a source

A line that imports or includes something is listed, whatever is open where it
stands and whether or not elements are left out. `line_lists`: a line adds its
bullet to the outline, and nothing else adds one. What keeps a line from being
listed is stated by `Scan.imports?` and `Scan.includes?`: it belongs to examples, or
it has a doc comment beside it, and then it is read as an element. Over a whole
source, `outline_bullets`.
-/

namespace NimMarkdown

/-! ## The bullet of a line -/

namespace Line

variable {line code doc : Text}

/-- The bullet of an import, on a line without a doc comment. -/
def imports? (line : Text) : Option Text :=
  if Text.hasPart docMarker line then none else importBullet line.strip

/-- The bullet of an include, on a line without a doc comment. -/
def includes? (line : Text) : Option Text :=
  if Text.hasPart docMarker line || (importBullet line.strip).isSome then none
  else includeBullet line.strip

/-- The line has no bullet. -/
def Unlisted (line : Text) : Prop := imports? line = none ∧ includes? line = none

theorem unlisted_of_marked (h : docMarker <:+: line) : Unlisted line := by
  simp [Unlisted, imports?, includes?, Text.hasPart_iff.2 h]

theorem unlisted_of_bullets (h : importBullet line.strip = none ∧ includeBullet line.strip = none) :
    Unlisted line := by
  simp [Unlisted, imports?, includes?, h.1, h.2]

theorem unlisted_of_isDoc (h : isDoc line = true) : Unlisted line := by
  have part : docMarker <:+: line.stripLeft := (List.isPrefixOf_iff_prefix.1 h).isInfix
  exact unlisted_of_marked (part.trans (Text.stripLeft_suffix line).isInfix)

theorem unlisted_of_splitInlineDoc (h : splitInlineDoc line = some (code, doc)) :
    Unlisted line := by
  obtain ⟨before, after, hc, -⟩ := cutAt_of_splitInlineDoc h
  exact unlisted_of_marked ⟨before, after, (Text.cutAt_eq hc).symm⟩

theorem unlisted_of_blank (h : line.isBlankText = true) : Unlisted line := by
  refine unlisted_of_bullets ?_
  rw [Text.strip_eq_nil_iff.2 h]
  decide

theorem unlisted_of_guard (h : isMainGuard line = true) : Unlisted line := by
  refine unlisted_of_bullets ?_
  rw [beq_iff_eq.1 h]
  decide

theorem unlisted_of_comment (h : Text.startsWith ['#'] line = true) : Unlisted line := by
  obtain ⟨rest, rfl⟩ := List.isPrefixOf_iff_prefix.1 h
  refine unlisted_of_bullets ?_
  have trimmed : Text.strip (['#'] ++ rest) = '#' :: Text.stripRight rest := by
    have solid : isBlank '#' = false := by decide
    simp [Text.strip, Text.stripLeft, solid, Text.stripRight, dropEndWhile_cons]
  rw [trimmed]
  exact ⟨rfl, rfl⟩

/-- A trimmed line begins with the word that it has before its comment. -/
theorem initial_of_leadingWord {c : Char} {rest word : Text} (hs : line.strip = c :: rest)
    (h : leadingWord (withoutComment line.strip) = some word) : word.head? = some c := by
  have solid : isBlank c = false := Text.head_strip hs
  rw [withoutComment, leadingWord_trim.stripRight, hs, List.takeWhile_cons] at h
  split at h
  · rw [leadingWord, Text.stripLeft_of_text solid] at h
    dsimp only at h
    split at h
    · cases h
      rfl
    · cases h
  · cases h

/-- A line that does not begin with a letter has no bullet. -/
theorem unlisted_of_initial (h : ∀ c rest, line.strip = c :: rest → isAsciiLetter c = false) :
    Unlisted line := by
  have other (word : Text) (hw : word.head?.any isAsciiLetter = true) :
      leadingWord (withoutComment line.strip) ≠ some word := by
    intro he
    cases hs : line.strip with
    | nil =>
      rw [hs] at he
      cases he
    | cons c rest => simp [initial_of_leadingWord hs he, h c rest hs] at hw
  have h1 := other "import".toList (by decide)
  have h2 := other "from".toList (by decide)
  have h3 := other "include".toList (by decide)
  refine unlisted_of_bullets ⟨?_, ?_⟩
  · unfold importBullet
    dsimp only
    split
    · rfl
    · next word hw =>
      rw [hw] at h1 h2
      rw [if_neg (by simpa using h1), if_neg (by simpa using h2)]
  · unfold includeBullet
    dsimp only
    rw [if_neg (by simpa using h3)]

/-- A line without a doc comment has the bullets of its trimmed text. -/
theorem bullets_of_bare (hd : isDoc line = false) (hs : splitInlineDoc line = none) :
    imports? line = importBullet line.strip ∧
      includes? line = if (importBullet line.strip).isSome then none
        else includeBullet line.strip := by
  have bare : Text.hasPart docMarker line = false := by
    rw [← Bool.not_eq_true, Text.hasPart_iff]
    exact Text.cutAt_eq_none_iff.1 (cutAt_of_bare hd hs)
  simp [imports?, includes?, bare]

end Line

/-! ## What a line lists -/

/-- The second outline has the bullets of the first and these. -/
structure Outline.Lists (o o' : Outline) (imported included : Option Text) : Prop where
  imports : o'.imports = o.imports ++ imported.toList
  includes : o'.includes = o.includes ++ included.toList

namespace Outline

variable {o o1 o' : Outline} {imported included : Option Text} {k : Nat}

theorem Grows.same_bullets (h : o.Grows o' k 0) : o'.imports = o.imports ∧
    o'.includes = o.includes := by
  obtain ⟨imports, includes, hi, hc, hn⟩ := h.bullets
  obtain ⟨rfl, rfl⟩ : imports = [] ∧ includes = [] :=
    ⟨List.length_eq_zero_iff.1 (by omega), List.length_eq_zero_iff.1 (by omega)⟩
  exact ⟨by simpa using hi, by simpa using hc⟩

theorem Grows.lists (h : o.Grows o' k 0) : o.Lists o' none none :=
  ⟨by simp [h.same_bullets.1], by simp [h.same_bullets.2]⟩

theorem Lists.after (h : o1.Lists o' imported included) (hg : o.Grows o1 k 0) :
    o.Lists o' imported included :=
  ⟨hg.same_bullets.1 ▸ h.imports, hg.same_bullets.2 ▸ h.includes⟩

end Outline

namespace Scan

variable {s s' : Scan} {line text : Text} {number : Int}

/-- The line belongs to the examples that are being read. -/
def takesExample (s : Scan) (line : Text) : Bool :=
  s.capture.active && (line.isBlankText || decide (s.capture.indent < line.indent))

/-- The bullet of an import that the line adds. -/
def imports? (s : Scan) (line : Text) : Option Text :=
  if s.takesExample line then none else Line.imports? line

/-- The bullet of an include that the line adds. -/
def includes? (s : Scan) (line : Text) : Option Text :=
  if s.takesExample line then none else Line.includes? line

/-- The line adds its bullet, if it has one, and no other. -/
def Lists (line : Text) (s s' : Scan) : Prop :=
  s.outline.Lists s'.outline (Line.imports? line) (Line.includes? line)

theorem lists_of_unlisted (hl : Line.Unlisted line) {k : Nat}
    (h : s.outline.Grows s'.outline k 0) : Lists line s s' := by
  rw [Lists, hl.1, hl.2]
  exact h.lists

theorem Advances.lists (hl : Line.Unlisted line) {k : Nat} (h : Advances line s s' k 0) :
    Lists line s s' := by
  rcases h with h | ⟨place, above, h⟩
  · exact lists_of_unlisted hl h
  · rw [Lists, hl.1, hl.2, h.outline]
    cases place <;> exact ⟨by simp [Outline.replaceLast], by simp [Outline.replaceLast]⟩

theorem importLine_lists (hd : Line.isDoc line = false) (hc : Line.splitInlineDoc line = none)
    (hs : s.importLine line.strip = some s') : Lists line s s' := by
  have flushed := (flushPending_grows s).same_bullets
  rw [Lists, (Line.bullets_of_bare hd hc).1, (Line.bullets_of_bare hd hc).2]
  unfold importLine at hs
  split at hs
  · next bullet hb =>
    cases hs
    rw [hb]
    exact ⟨congrArg (· ++ [bullet]) flushed.1, flushed.2.trans (List.append_nil _).symm⟩
  · next hb =>
    obtain ⟨bullet, hc, hs⟩ := Option.map_eq_some_iff.1 hs
    cases hs
    rw [hb, hc]
    exact ⟨flushed.1.trans (List.append_nil _).symm, congrArg (· ++ [bullet]) flushed.2⟩

theorem bullets_of_importLine (h : s.importLine text = none) :
    Line.importBullet text = none ∧ Line.includeBullet text = none := by
  unfold importLine at h
  split at h
  · cases h
  · next hb => exact ⟨hb, Option.map_eq_none_iff.1 h⟩

theorem textLine_lists (hs : s.Sound) (idle : s.Idle) (number : Int) (line : Text) :
    Lists line s (s.textLine number line) := by
  unfold textLine
  split
  · next hd => exact (docLine_grows hs idle hd).lists (Line.unlisted_of_isDoc hd)
  · next hd =>
    split
    · next code doc hc =>
      exact lists_of_unlisted (Line.unlisted_of_splitInlineDoc hc)
        (inlineDoc_grows s code doc number)
    · next hc =>
      split
      · next hi => exact importLine_lists (by simpa using hd) hc hi
      · next hi =>
        exact lists_of_unlisted (Line.unlisted_of_bullets (bullets_of_importLine hi))
          (declarationLine_grows s number line)

theorem bodyLine_lists (hs : s.Sound) (idle : s.Idle) (number : Int) (line : Text) :
    Lists line s (s.bodyLine number line) := by
  rw [bodyLine_eq]
  split
  · next hb => exact lists_of_unlisted (Line.unlisted_of_blank hb) (flushPending_grows s)
  · unfold atMargin
    split
    · exact textLine_lists hs.accept idle number line
    · exact textLine_lists hs idle number line

theorem grows_of_fencedLine (hs : s.Sound) {taken : Bool}
    (h : s.fencedLine line = .ok (taken, s')) : s.outline.Grows s'.outline 0 0 := by
  cases ho : s.fence.isOpen with
  | false =>
    rw [fencedLine_of_closed ho] at h
    cases h
    exact .refl _ 0 0
  | true =>
    obtain ⟨_, _, he, hg, -⟩ := hs.fencedLine_grows ho line
    obtain ⟨-, rfl⟩ := Prod.mk.inj (Except.ok.inj (h.symm.trans he))
    exact hg

theorem plainLine_lists (hs : s.Sound) (hr : s.Reading) (number : Int) (line : Text) :
    ∃ s', s.plainLine number line = .ok s' ∧ Lists line s s' := by
  obtain ⟨taken, s1, he, hm, idle⟩ := fencedLine_reading hs hr line
  have hg := grows_of_fencedLine hs he
  cases taken with
  | true =>
    exact ⟨s1, plainLine_of_taken he,
      lists_of_unlisted (Line.unlisted_of_isDoc (isDoc_of_fencedLine he)) hg⟩
  | false =>
    exact ⟨_, plainLine_of_refused he,
      (bodyLine_lists (docMoves_sound hs hm) (idle rfl) number line).after hg⟩

theorem captured_eq_takesExample (s : Scan) (line : Text) :
    (s.captured line).1 = s.takesExample line := by
  unfold captured takesExample captureLine
  cases s.capture.active with
  | false => rfl
  | true =>
    have below : (line.isBlankText || decide (s.capture.indent < line.indent)) =
        !(!line.isBlankText && decide (line.indent ≤ s.capture.indent)) := by
      rw [Bool.not_and, Bool.not_not, ← decide_not, decide_eq_decide.2 Nat.not_le]
    rw [if_pos rfl, Bool.true_and, below]
    split
    · next h => rw [h, Bool.not_true]
    · next h =>
      rw [Bool.eq_false_iff.2 h, Bool.not_false]
      split
      · rfl
      · split <;> rfl

theorem codeLine_lists (hs : s.Sound) (hi : s.inCode = true) (number : Int) (line : Text) :
    ∃ s', s.codeLine number line = .ok s' ∧
      s.outline.Lists s'.outline (s.imports? line) (s.includes? line) := by
  have captured := hs.captured_grows line
  rw [codeLine_eq, imports?, includes?, ← captured_eq_takesExample]
  split
  · exact ⟨_, rfl, captured.lists⟩
  · next hc =>
    obtain ⟨s', he, h⟩ := plainLine_lists (captured_moves hs number line).2
      (captured_reading hi (by simpa using hc)) number line
    exact ⟨s', he, h.after captured⟩

theorem unlisted_of_topDoc (h : s.topDoc line = .ok (true, s')) : Line.Unlisted line := by
  unfold topDoc at h
  split at h
  · next hm => exact Line.unlisted_of_marked (List.isPrefixOf_iff_prefix.1 hm).isInfix
  · refine Line.unlisted_of_initial fun c rest hc => ?_
    simp only [hc, Except.ok.injEq, Prod.mk.injEq, Bool.not_eq_true'] at h
    exact h.1

/-- A line of the top matter has no bullet. -/
theorem unlisted_of_takeTop (h : s.takeTop line = .ok (true, s')) : Line.Unlisted line := by
  unfold takeTop at h
  split at h
  · exact unlisted_of_topDoc h
  · split at h
    · exact unlisted_of_topDoc h
    · split at h
      · next hp =>
        simp only [Line.isPlainComment, Bool.and_eq_true] at hp
        exact Line.unlisted_of_comment hp.1
      · split at h
        · next hb => exact Line.unlisted_of_blank hb
        · cases h

/-- **A line of the source** adds its bullet, and no other. -/
theorem line_lists (hs : s.Sound) (hn : 1 ≤ number) (line : Text) :
    ∃ s', s.line number line = .ok s' ∧
      s.outline.Lists s'.outline (s.imports? line) (s.includes? line) := by
  have here (top : s.inCode = false) : s.takesExample line = false := by
    rw [takesExample, (hs.top top).2.2.2.2.1, Bool.false_and]
  cases line_cases hs hn line with
  | guard marked read =>
    obtain ⟨hi, hc⟩ := Line.unlisted_of_guard marked
    refine ⟨s, read, ?_⟩
    rw [imports?, includes?, hi, hc, ite_self]
    exact (Outline.Grows.refl _ 0 0).lists
  | code inCode read => exact read ▸ codeLine_lists hs inCode number line
  | top top taken read =>
    obtain ⟨_, _, he, h⟩ := takeTop_addsTop hs top line
    obtain ⟨-, rfl⟩ := Prod.mk.inj (Except.ok.inj (taken.symm.trans he))
    refine ⟨_, read, ?_⟩
    rw [imports?, includes?, here top]
    exact lists_of_unlisted (unlisted_of_takeTop taken) (h.grows (hs.top top).2.2.2.1)
  | first top _ begun entered read =>
    obtain ⟨s2, he, h⟩ := codeLine_lists entered rfl number line
    have idle : takesExample (enterCode { s with docSeen := true } number) line = false := by
      have kept := mt (enterCode_keeps begun number).capture (by simp [(hs.top top).2.2.2.2.1])
      rw [takesExample, Bool.eq_false_iff.2 kept, Bool.false_and]
    refine ⟨s2, read.trans he, ?_⟩
    rw [imports?, includes?, idle] at h
    rw [imports?, includes?, here top]
    exact h.after (enterCode_grows begun top number)

/-- Over a run the bullets of its lines add up, each read in the state before its line. -/
theorem states_list (ls : List Text) (n : Nat) (hn : 1 ≤ n) (hs : s.Sound) :
    ∃ states final, s.states n ls = .ok states ∧ (s.lines n ls).map finish = .ok final ∧
      states.length = ls.length + 1 ∧
      final.outline.imports = s.outline.imports ++
        (List.zipWith imports? states ls).reduceOption ∧
      final.outline.includes = s.outline.includes ++
        (List.zipWith includes? states ls).reduceOption := by
  induction ls generalizing s n with
  | nil =>
    obtain ⟨hi, hc⟩ := (finish_grows hs).same_bullets
    exact ⟨[s.finish], s.finish, rfl, rfl, rfl, by simpa using hi, by simpa using hc⟩
  | cons line rest ih =>
    have hn' : (1 : Int) ≤ n := by omega
    obtain ⟨s1, he, h⟩ := line_lists hs hn' line
    obtain ⟨s1', he', hm⟩ := line_moves hs hn' line
    obtain rfl := Except.ok.inj (he.symm.trans he')
    obtain ⟨states, final, hst, hfin, hlen, hi, hc⟩ := ih (n + 1) (by omega) (hm.sound hn' hs)
    refine ⟨s :: states, final, ?_, ?_, by simp [hlen], ?_, ?_⟩
    · rw [states_cons he, hst]
      rfl
    · rw [lines_cons he, hfin]
    · rw [hi, h.imports, List.append_assoc, List.zipWith_cons_cons]
      cases s.imports? line <;> rfl
    · rw [hc, h.includes, List.append_assoc, List.zipWith_cons_cons]
      cases s.includes? line <;> rfl

end Scan

namespace Source

/-- **Imports and includes.** The imports of a source are the bullets of its lines in their
order, whichever of its elements are left out; so are its includes. A line is passed over only
where it belongs to examples or has a doc comment. -/
theorem outline_bullets {settings : Settings} {options : Options}
    (valid : settings.validate = .ok options) (content : Text) :
    ∃ states o, Scan.sourceStates (options.on .exportedOnly) content = .ok states ∧
      outline settings content = .ok o ∧ states.length = (Scan.sourceLines content).length + 1 ∧
      o.imports = (List.zipWith Scan.imports? states (Scan.sourceLines content)).reduceOption ∧
      o.includes =
        (List.zipWith Scan.includes? states (Scan.sourceLines content)).reduceOption := by
  obtain ⟨states, final, hst, hfin, hlen, hi, hc⟩ :=
    Scan.states_list (Scan.sourceLines content) 1 (Nat.le_refl 1)
      (Scan.fresh_sound (options.on .exportedOnly))
  exact ⟨states, final.outline, hst, outline_of_source valid hfin, hlen, hi, hc⟩

/-- Imports and includes behind a comment, in a routine that is left out, in examples, before the
end of a signature and in a section. -/
def manyImports : Text :=
  ("import os # files\nproc hidden() =\n  import strutils\n  runnableExamples:\n" ++
    "    import json\nproc open*(\n  from math import pow\nvar\n  x*: int\n" ++
    "  include \"lib.nim\"\n").toList

theorem outline_bullets_manyImports :
    let only := Settings.byDefault.set (.toggle .exportedOnly) (.bool true)
    only.validate = .ok only.toOptions ∧
      ∃ states o, Scan.sourceStates (only.toOptions.on .exportedOnly) manyImports = .ok states ∧
        outline only manyImports = .ok o ∧
        states.length = (Scan.sourceLines manyImports).length + 1 ∧
        o.imports =
          (List.zipWith Scan.imports? states (Scan.sourceLines manyImports)).reduceOption ∧
        o.includes =
          (List.zipWith Scan.includes? states (Scan.sourceLines manyImports)).reduceOption :=
  ⟨rfl, outline_bullets rfl manyImports⟩

/-- An import with a doc comment beside it is no import of the source, but an element. -/
theorem outline_bullets_besideDoc :
    Line.isDoc "import os ## files".toList = false ∧
      Line.importBullet (Text.strip "import os ## files".toList) = some "- os".toList ∧
      ∃ o, outline .byDefault "import os ## files".toList = .ok o ∧ o.imports = [] ∧
        o.declarations.map Declaration.code = [["import os".toList]] := by
  refine ⟨by decide, by decide, _, rfl, ?_⟩
  decide +kernel

end Source

end NimMarkdown
