import NimMarkdown.Proofs.Growth

/-!
# What a line of code leaves as it is

Only the latest declaration is still open to change. `Scan.Frame` says so category
by category: the declarations of a category stay as they are and others come behind
them, but for the last one of the latest category, of which the comment and the
examples may change. A line of code adds at most two declarations and one bullet.
Both ways in which a line advances (`Scan.Advances`) keep within this frame.
-/

namespace NimMarkdown

/-- The last of the declarations may have other texts. -/
def LastRedrafted (ds es : List Declaration) : Prop :=
  es = ds ∨ ∃ before d e, ds = before ++ [d] ∧ es = before ++ [e] ∧ e.head = d.head

theorem LastGrows.redrafted {ds es : List Declaration} (h : LastGrows ds es) :
    LastRedrafted ds es :=
  h.imp_right fun ⟨before, d, e, hd, he, hg⟩ => ⟨before, d, e, hd, he, hg.head⟩

/-- Within one category other texts are seen in its last declaration, if that is the last of
all. -/
theorem LastRedrafted.ofCategory {ds es : List Declaration} (h : LastRedrafted ds es)
    (category : Category) :
    let old := ds.filter (·.category == category)
    let new := es.filter (·.category == category)
    new.map Declaration.head = old.map Declaration.head ∧ new.dropLast = old.dropLast ∧
      (ds.getLast?.map Declaration.category ≠ some category → new = old) := by
  intro old new
  rcases h with rfl | ⟨before, d, e, rfl, rfl, head⟩
  · exact ⟨rfl, rfl, fun _ => rfl⟩
  · have same : e.category = d.category := (Declaration.head_eq_iff.1 head).2.2.1
    by_cases hc : d.category = category
    · have hold : old = before.filter (·.category == category) ++ [d] := by
        simp [old, List.filter_append, hc]
      have hnew : new = before.filter (·.category == category) ++ [e] := by
        simp [new, List.filter_append, same, hc]
      refine ⟨?_, ?_, fun hne => ?_⟩
      · simp [hold, hnew, head]
      · rw [hold, hnew, List.dropLast_concat, List.dropLast_concat]
      · simp [hc] at hne
    · have equal : new = old := by
        simp [old, new, List.filter_append, same, hc]
      exact ⟨congrArg _ equal, congrArg _ equal, fun _ => equal⟩

namespace Scan

variable {s s' : Scan} {line above : Text} {number : Int} {place : Place} {k m : Nat}

/-- What a step in the code may change. -/
structure Frame (s s' : Scan) : Prop where
  /-- At most one bullet is new. -/
  bullets : ∃ imports includes, s'.outline.imports = s.outline.imports ++ imports ∧
    s'.outline.includes = s.outline.includes ++ includes ∧ imports.length + includes.length ≤ 1
  /-- At most two declarations are new. Of the others, the last one of the latest category may
  have another comment and other examples. -/
  declarations : ∃ added : List Declaration, added.length ≤ 2 ∧ ∀ category, ∃ kept,
    s'.outline.ofCategory category = kept ++ added.filter (·.category == category) ∧
    kept.map Declaration.head = (s.outline.ofCategory category).map Declaration.head ∧
    kept.dropLast = (s.outline.ofCategory category).dropLast ∧
    (s.lastCategory ≠ some category → kept = s.outline.ofCategory category)
  /-- Behind a declaration the top matter is complete. -/
  topMatter : s.lastCategory ≠ none → s'.outline.topMatter = s.outline.topMatter

theorem Frame.of_redrafted (hs : s.Sound) {kept added : List Declaration}
    (hd : s'.outline.declarations = kept ++ added)
    (hk : LastRedrafted s.outline.declarations kept) (hn : added.length ≤ 2)
    (bullets : ∃ imports includes, s'.outline.imports = s.outline.imports ++ imports ∧
      s'.outline.includes = s.outline.includes ++ includes ∧
      imports.length + includes.length ≤ 1)
    (topMatter : s.outline.declarations ≠ [] → s'.outline.topMatter = s.outline.topMatter) :
    s.Frame s' where
  bullets
  declarations := by
    refine ⟨added, hn, fun category => ⟨kept.filter (·.category == category), ?_, ?_⟩⟩
    · rw [Outline.ofCategory, hd, List.filter_append]
    · rw [hs.lastCategory]
      exact hk.ofCategory category
  topMatter hl := topMatter (by simpa [hs.lastCategory] using hl)

theorem Frame.of_grows (hs : s.Sound) (h : s.outline.Grows s'.outline 2 1) : s.Frame s' := by
  obtain ⟨kept, added, hd, hl, hn⟩ := h.declarations
  exact .of_redrafted hs hd hl.redrafted hn h.bullets h.settled

/-- A heading is made in the comment of the last declaration, or in the top matter where there is
none. -/
theorem Frame.of_heading (hs : s.Sound) (h : HeadsLast line s s' place above) : s.Frame s' := by
  have bullets : s'.outline.imports = s.outline.imports ∧
      s'.outline.includes = s.outline.includes := by
    rw [h.outline]
    exact ⟨Outline.imports_modifyLines, Outline.includes_modifyLines⟩
  have none_new : ∃ imports includes, s'.outline.imports = s.outline.imports ++ imports ∧
      s'.outline.includes = s.outline.includes ++ includes ∧
      imports.length + includes.length ≤ 1 :=
    ⟨[], [], by simp [bullets.1], by simp [bullets.2], Nat.zero_le 1⟩
  rcases hs.docPlace_cases h.at_ with ⟨rfl, hd⟩ | ⟨before, d, rfl, hd⟩
  · have hd' : s'.outline.declarations = [] ++ [] := by
      rw [h.outline]
      exact hd
    exact .of_redrafted hs hd' (.inl hd.symm) (Nat.zero_le 2) none_new fun hne => (hne hd).elim
  · let heading := headingLine
      (Line.underlineLevel (Line.docText line) + headingOffset (.comment before.length)) above
    let redrafted : Declaration := { d with comment := d.comment.dropLast ++ [heading] }
    have hd' : s'.outline.declarations = before ++ [redrafted] ++ [] := by
      rw [h.outline, List.append_nil]
      simp only [Outline.replaceLast, Outline.modifyLines, Outline.modify, hd, modify_concat]
      rfl
    refine .of_redrafted hs hd' (.inr ⟨before, d, redrafted, hd, rfl, rfl⟩) (Nat.zero_le 2)
      none_new fun _ => ?_
    rw [h.outline]
    rfl

/-- **Only the latest declaration is open to change.** In the code, every line and the end of the
source keep to the frame: up to one further bullet and two further declarations, at the ends of
their lists; all else stays, but for the comment and the examples of the last declaration of the
latest category, and for the top matter as long as nothing is declared. -/
theorem codeLine_frame (reached : s.Reached) (inCode : s.inCode = true) :
    (∀ number line, ∃ s', s.codeLine number line = .ok s' ∧ s.Frame s') ∧ s.Frame s.finish := by
  have hs := reached.sound
  refine ⟨fun number line => ?_, .of_grows hs ?_⟩
  · obtain ⟨s', he, h⟩ := codeLine_grows hs inCode number line
    refine ⟨s', he, ?_⟩
    rcases h with h | ⟨place, above, h⟩
    · exact .of_grows hs h
    · exact .of_heading hs h
  · exact (finish_grows hs).mono (by omega) (Nat.zero_le 1)

/-- A declaration with a doc comment, and the first line of another one. -/
def unfinishedRoutine : List Text :=
  ["proc first*() =".toList, "  ## Runs first".toList, [], "func second*(".toList]

theorem codeLine_frame_unfinishedRoutine :
    ∃ s, (fresh false).lines 1 unfinishedRoutine = .ok s ∧ s.inCode = true ∧
      s.lastCategory = some (.routine .proc) ∧
      (∀ number line, ∃ s', s.codeLine number line = .ok s' ∧ s.Frame s') ∧ s.Frame s.finish := by
  obtain ⟨s, he, -⟩ := lines_ok false unfinishedRoutine
  have state : ((fresh false).lines 1 unfinishedRoutine).map
      (fun s => (s.inCode, s.lastCategory)) = .ok (true, some (.routine .proc)) := by
    decide +kernel
  rw [he] at state
  obtain ⟨inCode, last⟩ := Prod.mk.inj (Except.ok.inj state)
  exact ⟨s, he, inCode, last, codeLine_frame (.between he) inCode⟩

end Scan

end NimMarkdown
