import NimMarkdown.Proofs.NeatLines
import NimMarkdown.Source

/-!
# How a document is put together

A document is written chunk by chunk, and whether an empty line goes before a chunk
depends on what has been written so far. Over a whole list of chunks the rule is
simple: the chunks that are not empty, with one empty line between each two
(`foldl_appendChunk`). `render_chunks` says which chunks these are.
-/

namespace NimMarkdown

variable {chunk chunk' lines : List Text} {chunks : List (List Text)}

theorem appendChunk_nil (lines : List Text) : appendChunk lines [] = lines := rfl

theorem nil_appendChunk (chunk : List Text) : appendChunk [] chunk = chunk := by
  cases chunk <;> rfl

theorem appendChunk_of_filled (above : lines ≠ []) (h : chunk ≠ []) :
    appendChunk lines chunk = lines ++ [] :: chunk := by
  simp only [appendChunk, List.isEmpty_iff, above, h, if_false]

/-- An empty line inside of a part and an empty line between two parts are the same. -/
theorem intercalate_gap (chunk chunk' : List Text) (chunks : List (List Text)) :
    [[]].intercalate ((chunk ++ [] :: chunk') :: chunks) =
      [[]].intercalate (chunk :: chunk' :: chunks) := by
  cases chunks with
  | nil =>
    rw [List.intercalate_cons_cons, List.intercalate_singleton, List.intercalate_singleton]
    simp
  | cons next rest => simp [List.intercalate_cons_cons]

/-- The separator depends on what was written before; altogether there is one between each two
chunks that are not empty. -/
theorem foldl_appendChunk (lines : List Text) (chunks : List (List Text)) :
    chunks.foldl appendChunk lines =
      [[]].intercalate ((lines :: chunks).filter fun chunk => !chunk.isEmpty) := by
  induction chunks generalizing lines with
  | nil => cases lines <;> simp
  | cons chunk rest ih =>
    rw [List.foldl_cons, ih]
    by_cases h : chunk = []
    · rw [h, appendChunk_nil]
      rfl
    by_cases above : lines = []
    · rw [above, nil_appendChunk]
      rfl
    rw [appendChunk_of_filled above h]
    have filled : (lines ++ [] :: chunk).isEmpty = false := by simp
    have this : lines.isEmpty = false := List.isEmpty_eq_false_iff.2 above
    have next : chunk.isEmpty = false := List.isEmpty_eq_false_iff.2 h
    simp only [List.filter_cons, filled, this, next, Bool.not_false, if_true]
    exact intercalate_gap lines chunk _

/-! ## The chunks of an outline -/

/-- What is left of the lines when all blank ones are taken from both ends. -/
structure Trimmed (lines trimmed : List Text) : Prop where
  ends : ∃ above below, lines = above ++ trimmed ++ below ∧
    ∀ line ∈ above ++ below, line.isBlankText = true
  first : ∀ line ∈ trimmed.head?, line.isBlankText = false
  last : ∀ line ∈ trimmed.getLast?, line.isBlankText = false

theorem trimmed_trimBlankLines (lines : List Text) : Trimmed lines (trimBlankLines lines) where
  ends := by
    obtain ⟨below, he, blank⟩ :=
      dropEndWhile_append Text.isBlankText (lines.dropWhile Text.isBlankText)
    refine ⟨lines.takeWhile Text.isBlankText, below, ?_, ?_⟩
    · rw [trimBlankLines, List.append_assoc, ← he, List.takeWhile_append_dropWhile]
    · exact List.forall_mem_append.2 ⟨fun _ hl => List.mem_takeWhile_imp hl, blank⟩
  first _ hl := head?_trimBlankLines hl
  last _ hl := getLast?_dropEndWhile hl

/-- The lists of imports and includes; what is empty is not seen in the document. -/
theorem Outline.filter_bulletChunks (on : Bool) (heading heading' : String)
    (bullets bullets' : List Text) :
    List.filter (fun chunk => !chunk.isEmpty)
        (if on then [bulletChunk heading bullets, bulletChunk heading' bullets'] else []) =
      List.filter (fun chunk => !chunk.isEmpty)
        ((if on ∧ bullets ≠ [] then [[heading.toList, []] ++ bullets] else []) ++
          if on ∧ bullets' ≠ [] then [[heading'.toList, []] ++ bullets'] else []) := by
  cases on with
  | false => rfl
  | true => cases bullets <;> cases bullets' <;> rfl

namespace Source

/-- **A document is a plain interleaving of chunks.** Its lines are those of the chunks that are not
empty, with exactly one empty line between each two: the top matter without the blank lines at its
ends, the imports and the includes under their headings, and then the declarations of the
categories that are switched on and have any. -/
theorem render_chunks {settings : Settings} {options : Options}
    (valid : settings.validate = .ok options) (o : Outline) :
    let on := options.on
    let shown := Category.all.filter fun c => c.isOn on && !(o.ofCategory c).isEmpty
    ∃ d top, render settings o = .ok d ∧ Trimmed o.topMatter top ∧
      d.lines = [[]].intercalate (List.filter (fun chunk => !chunk.isEmpty)
        ([top] ++
          (if on .imports ∧ o.imports ≠ [] then
            [["# Imports".toList, []] ++ o.imports] else []) ++
          (if on .imports ∧ o.includes ≠ [] then
            [["# Includes".toList, []] ++ o.includes] else []) ++
          (if on .types ∧ shown ≠ [] then [["# Types".toList]] else []) ++
          shown.flatMap fun c =>
            (if on .types then [[("## " ++ c.title).toList]] else []) ++
              (o.ofCategory c).map fun d => d.render on)) := by
  intro on shown
  refine ⟨o.render on, trimBlankLines o.topMatter, ?_, trimmed_trimBlankLines _, ?_⟩
  · rw [render, valid]
    rfl
  have types : (!shown.isEmpty && on .types) = true ↔ on .types = true ∧ shown ≠ [] := by
    simp [and_comm]
  have chunks : o.chunks on = [trimBlankLines o.topMatter] ++
      (if on .imports then
        [Outline.bulletChunk "# Imports" o.imports, Outline.bulletChunk "# Includes" o.includes]
      else []) ++
      (if !shown.isEmpty && on .types then [["# Types".toList]] else []) ++
      shown.flatMap fun c => o.categoryChunks on c := rfl
  calc (o.render on).lines
      = [[]].intercalate ((o.chunks on).filter fun chunk => !chunk.isEmpty) :=
        foldl_appendChunk [] _
    _ = _ := by
      simp only [chunks, List.filter_append, Outline.filter_bulletChunks, types, List.append_assoc]
      rfl

/-- The top matter is blank, the includes are missing, the constants are switched off, and the other
elements begin with a blank narrative. -/
def emptyParts : Outline where
  topMatter := [[], "  ".toList]
  imports := ["- os".toList]
  declarations :=
    [{ lineNumber := 4, isExported := false, category := .other, heading := none,
       comment := [[], []] },
     { lineNumber := 1, isExported := false, category := .consts, heading := some "a".toList,
       code := ["a = 1".toList] },
     { lineNumber := 7, isExported := true, category := .other, heading := some "b".toList,
       code := ["b* = int".toList], examples := [[], "check b".toList] },
     { lineNumber := 2, isExported := false, category := .routine .proc, heading := none,
       comment := ["Note".toList, []] }]

theorem render_chunks_emptyParts :
    let settings := Settings.byDefault.set (.toggle .consts) (.bool false)
    settings.validate = .ok settings.toOptions ∧
      ∃ d top, render settings emptyParts = .ok d ∧ Trimmed emptyParts.topMatter top ∧
        d.lines = [[]].intercalate (List.filter (fun chunk => !chunk.isEmpty)
          [top, ["# Imports".toList, [], "- os".toList], ["# Types".toList],
            ["## Procs".toList], ["Note".toList], ["## Other".toList], [],
            ["### b".toList, sourceFence, "b* = int".toList, fenceMark, [],
              "**Example:**".toList, [], sourceFence, "check b".toList, fenceMark]]) := by
  intro settings
  have valid : settings.validate = .ok settings.toOptions := rfl
  obtain ⟨d, top, hd, trimmed, written⟩ := render_chunks valid emptyParts
  refine ⟨valid, d, top, hd, trimmed, written.trans ?_⟩
  simp only [List.append_assoc, List.cons_append, List.nil_append]
  refine congrArg (fun parts => [[]].intercalate (List.filter _ (top :: parts))) ?_
  decide +kernel

end Source

end NimMarkdown
