import NimMarkdown.Proofs.CodeBlocks
import NimMarkdown.Proofs.Growth

/-!
# What a scan writes of doc lines

Doc lines go to the end of what has been written before, or make a heading of the last
line. So all of them can be read in one go, in the order in which they are written
(`Outline.written`), and `Scan.blocks` are the code blocks in them. Outside of a code block
nothing that is written is a fence line: `Scan.Passes` says so of two states, and there is
a lemma for each operation. No fence mark may occur in the source for that (`Unmarked`).
-/

namespace NimMarkdown

namespace Outline

/-- The doc lines of the outline, in the order in which they are written. -/
def written (o : Outline) : List Text := o.topMatter ++ o.declarations.flatMap (·.comment)

/-- The texts of the outline that code blocks can stand in. -/
def docParts (o : Outline) : List (List Text) := o.topMatter :: o.declarations.map (·.comment)

/-- The bodies of the code blocks of the outline. -/
def codeBlocks (o : Outline) : List (List Text) := o.docParts.flatMap NimMarkdown.codeBlocks

theorem written_eq (o : Outline) : o.written = o.docParts.flatten := by
  rw [written, docParts, List.flatten_cons, List.flatMap_def]

theorem Fenced.balanced {o : Outline} (h : o.Fenced) : ∀ part ∈ o.docParts, Balanced part := by
  intro part hp
  rcases List.mem_cons.1 hp with rfl | hp
  · exact h.topMatter
  · obtain ⟨d, hd, rfl⟩ := List.mem_map.1 hp
    exact (h.declarations d hd).comment

theorem written_add (o : Outline) (d : Declaration) :
    (o.add d).written = o.written ++ d.comment := by
  simp [written, add, List.append_assoc]

theorem written_modify (o : Outline) (index : Nat) {g : Declaration → Declaration}
    (hg : ∀ d, (g d).comment = d.comment) : (o.modify index g).written = o.written := by
  have same : (o.declarations.modify index g).map (·.comment) =
      o.declarations.map (·.comment) := by
    apply List.ext_getElem?
    intro i
    simp only [List.getElem?_map, List.getElem?_modify]
    split <;> cases o.declarations[i]? <;> simp [hg]
  rw [written_eq, written_eq, docParts, docParts, modify, same]

end Outline

namespace Scan

variable {s s' s₁ : Scan} {line text code doc : Text} {number : Int} {place : Place} {n : Nat}
  {ls more : List Text} {numbers : List Nat}

/-- The code blocks of what has been written. -/
def blocks (s : Scan) : List (List Text) × Option (List Text) := readBlocks none s.outline.written

theorem blocks_append (h : s'.outline.written = s.outline.written ++ more) :
    s'.blocks = (s.blocks.1 ++ (readBlocks s.blocks.2 more).1, (readBlocks s.blocks.2 more).2) := by
  rw [blocks, h, readBlocks_append]
  rfl

/-- The doc lines at the place where doc lines go are the last ones. -/
theorem Sound.written_edit (hs : s.Sound) (at_ : s.docPlace = some place) :
    ∃ before, s.outline.written = before ++ s.outline.linesAt place ∧
      ∀ f, (s.edit place f).outline.written = before ++ f (s.outline.linesAt place) := by
  rcases hs.docPlace_cases at_ with ⟨rfl, hd⟩ | ⟨before, d, rfl, hd⟩
  · refine ⟨[], ?_, fun f => ?_⟩
    · simp [Outline.written, Outline.linesAt, hd]
    · simp [Scan.edit, Outline.modifyLines, Outline.written, Outline.linesAt, hd]
  · refine ⟨s.outline.topMatter ++ before.flatMap (·.comment), ?_, fun f => ?_⟩
    · simp [Outline.written, Outline.linesAt, hd]
    · simp [Scan.edit, Outline.modifyLines, Outline.modify, Outline.written, Outline.linesAt, hd,
        modify_concat]

theorem Sound.written_append (hs : s.Sound) (at_ : s.docPlace = some place) (ts : List Text) :
    (s.edit place (· ++ ts)).outline.written = s.outline.written ++ ts := by
  obtain ⟨before, whole, edited⟩ := hs.written_edit at_
  rw [edited, whole, List.append_assoc]

/-! ## Outside of code blocks -/

/-- The fence is as before, and outside of a code block no fence line has been written. -/
structure Passes (s s' : Scan) : Prop where
  fence : s'.fence = s.fence
  blocks : s.blocks.2 = none → s'.blocks = s.blocks

theorem Passes.trans (h : Passes s s₁) (h' : Passes s₁ s') : Passes s s' := by
  refine ⟨h'.fence.trans h.fence, fun closed => ?_⟩
  have same := h.blocks closed
  exact (h'.blocks (same ▸ closed)).trans same

theorem passes_of_same (fence : s'.fence = s.fence) (outline : s'.outline = s.outline) :
    Passes s s' :=
  ⟨fence, fun _ => by rw [blocks, outline, blocks]⟩

theorem passes_of_append (fence : s'.fence = s.fence)
    (h : s'.outline.written = s.outline.written ++ more)
    (plain : ∀ l ∈ more, isFenceLine l = false) : Passes s s' := by
  refine ⟨fence, fun closed => ?_⟩
  rw [blocks_append h, closed, readBlocks_plain plain, List.append_nil, ← closed]

theorem register_passes (s : Scan) {d : Declaration}
    (plain : ∀ l ∈ d.comment, isFenceLine l = false) : Passes s (s.register d) := by
  unfold register
  split
  · exact passes_of_same rfl rfl
  · exact passes_of_append rfl (Outline.written_add s.outline d) plain

theorem flushPending_passes (s : Scan) : Passes s s.flushPending := by
  unfold flushPending
  split
  · exact passes_of_same rfl rfl
  · exact { register_passes { s with pending := { s.pending with lines := [] } } (by simp) with }

theorem startDeclaration_passes (s : Scan) (line : Text) (number : Int) :
    Passes s (s.startDeclaration line number) := by
  have begun : Passes s { s.flushPending.endDeclaration with
      pending := { lines := [line], lineNumber := number } } := { flushPending_passes s with }
  simp only [startDeclaration]
  split
  · exact begun.trans (flushPending_passes _)
  · exact begun

theorem continueDeclaration_passes (s : Scan) (line : Text) :
    Passes s (s.continueDeclaration line) := by
  simp only [continueDeclaration]
  split
  · exact { flushPending_passes
      { s with pending := { s.pending with lines := s.pending.lines ++ [line] } } with }
  · exact passes_of_same rfl rfl

theorem declareLine_passes (s : Scan) (code : Text) (hd : Unmarked doc) (number : Int)
    (category : Category) : Passes s (s.declareLine code doc number category) := by
  have plain : ∀ l ∈ (lineDeclaration code doc number category).comment, isFenceLine l = false := by
    intro l hl
    simp only [lineDeclaration] at hl
    split at hl
    · cases hl
    · exact plain_singleton hd.not_fence l hl
  rw [declareLine_eq]
  exact { register_passes s.endDeclaration plain with }

theorem unmarked_nil : Unmarked [] := by
  unfold Unmarked
  decide

theorem inlineDoc_passes (s : Scan) (code : Text) (hd : Unmarked doc) (number : Int) :
    Passes s (s.inlineDoc code doc number) := by
  have dropped : Passes s ((s.dropPending number).inSection (s.inlineSection code)) := by
    unfold dropPending
    split
    · exact passes_of_same rfl rfl
    · exact passes_of_same rfl rfl
  rw [inlineDoc_eq]
  exact dropped.trans (declareLine_passes _ code hd number _)

theorem importLine_passes (h : s.importLine text = some s') : Passes s s' := by
  unfold importLine at h
  split at h
  · cases h
    exact { flushPending_passes s with }
  · obtain ⟨bullet, -, rfl⟩ := Option.map_eq_some_iff.1 h
    exact { flushPending_passes s with }

theorem sectionLine_passes (s : Scan) (line : Text) (number : Int) :
    Passes s (s.sectionLine line number).2 := by
  unfold sectionLine
  split
  · unfold sectionStart
    split
    · exact passes_of_same rfl rfl
    · simp only
      split
      · exact passes_of_same rfl rfl
      · split
        · exact { declareLine_passes (s.endDeclaration.inSection {}) _ unmarked_nil number _ with }
        · exact passes_of_same rfl rfl
  · unfold sectionEntry
    split
    · exact passes_of_same rfl rfl
    · simp only
      split
      · exact { declareLine_passes (s.inSection { s.openSection with
          indent := some (s.openSection.indent.getD line.indent) }) _ unmarked_nil number _ with }
      · exact passes_of_same rfl rfl

theorem declarationLine_passes (s : Scan) (number : Int) (line : Text) :
    Passes s (s.declarationLine number line) := by
  unfold declarationLine
  split
  · exact { startDeclaration_passes
      (s.inSection { s.openSection with category := none }) line number with }
  · split
    · exact continueDeclaration_passes s line
    · simp only
      split
      · exact { sectionLine_passes s line number with }
      · exact sectionLine_passes s line number

theorem captured_passes (s : Scan) (line : Text) : Passes s (s.captured line).2 := by
  have modified (c : Capture) (index : Nat) {g : Declaration → Declaration}
      (hg : ∀ d, (g d).comment = d.comment) :
      Passes s { s with outline := s.outline.modify index g, capture := c } := by
    refine ⟨rfl, fun _ => ?_⟩
    rw [blocks, Outline.written_modify s.outline index hg, blocks]
  unfold captured
  split
  · unfold captureLine
    split
    · exact passes_of_same rfl rfl
    · split
      · exact passes_of_same rfl rfl
      · split
        · refine modified _ _ fun d => ?_
          split <;> rfl
        · exact modified _ _ fun d => rfl
  · exact passes_of_same rfl rfl

theorem docTextAt_passes (hs : s.Sound) (at_ : s.docPlace = some place) (ht : Unmarked text) :
    Passes s (s.docTextAt place text) := by
  rcases docTextAt_cases s place text with h | h | ⟨above, level, last, -, plain, -, h⟩ <;> rw [h]
  · exact passes_of_same rfl rfl
  · exact passes_of_append rfl (hs.written_append at_ [text]) (plain_singleton ht.not_fence)
  · obtain ⟨before, whole, edited⟩ := hs.written_edit at_
    obtain ⟨init, hl⟩ := List.getLast?_eq_some_iff.1 last
    refine ⟨rfl, fun closed => ?_⟩
    rw [blocks, edited, hl, List.dropLast_concat, ← List.append_assoc]
    rw [hl, ← List.append_assoc] at whole
    rw [blocks, whole] at closed ⊢
    exact readBlocks_swap plain (isFenceLine_heading level above) closed

theorem commentPlace_passes (hs : s.Sound) : Passes s s.commentPlace.2 := by
  unfold commentPlace
  split
  · exact passes_of_same rfl rfl
  · split
    · exact passes_of_same rfl rfl
    · split
      · next hl =>
        have hd : s.outline.declarations = [] := by simpa [hl] using hs.lastCategory.symm
        simp only
        split
        · have blank : isFenceLine [] = false := rfl
          refine passes_of_append rfl ?_ (plain_singleton blank)
          simp [appendLine, Outline.appendLine, Outline.modifyLines, Outline.written, hd]
        · exact passes_of_same rfl rfl
      · exact passes_of_append rfl (Outline.written_add s.outline _) (by simp)

theorem appendTop_passes (hs : s.Sound) (top : s.inCode = false)
    (plain : isFenceLine line = false) : Passes s (s.appendLine .topMatter line) :=
  passes_of_append rfl (hs.written_append (by simp [docPlace, top]) [line]) (plain_singleton plain)

theorem commitHeld_passes (hs : s.Sound) (top : s.inCode = false) (hf : s.Fenced) :
    Passes s s.commitHeld := by
  unfold commitHeld
  split
  · exact passes_of_same rfl rfl
  · next above hh => exact { appendTop_passes hs top (hf.held above hh).not_fence with }

end Scan

end NimMarkdown
