import NimMarkdown.Proofs.Mirror
import NimMarkdown.Proofs.Run

/-!
# Well-formed outlines

A declaration is an element of the source, with a heading, a line and code, or a
narrative, which has none of these and no examples (`Declaration.WellFormed`). A
narrative goes to the category of the latest declaration, so no category begins with
one (`Outline.WellFormed`). Only three kinds of moves do more than to change texts: a
declaration is registered, a narrative begins, and a line is added to the examples of
the current declaration, which is an element.
-/

namespace NimMarkdown

/-- An element has a line of the source and code. A narrative has neither, and no examples; it is
never left out. -/
structure Declaration.WellFormed (d : Declaration) : Prop where
  element : d.heading.isSome = true → 1 ≤ d.lineNumber ∧ d.code ≠ []
  narrative : d.heading = none →
    d.lineNumber = 0 ∧ d.isExported = true ∧ d.code = [] ∧ d.examples = []

theorem Declaration.wellFormed_element {d : Declaration} (element : d.heading.isSome = true)
    (h : 1 ≤ d.lineNumber ∧ d.code ≠ []) : d.WellFormed where
  element _ := h
  narrative hn := by
    rw [hn] at element
    cases element

theorem Declaration.wellFormed_narrative (category : Category) : Declaration.WellFormed
    { lineNumber := 0, isExported := true, category, heading := none } where
  element := nofun
  narrative _ := ⟨rfl, rfl, rfl, rfl⟩

/-- But for the examples of a narrative, the head of a declaration says it all. -/
theorem Declaration.WellFormed.of_head {d e : Declaration} (h : d.WellFormed)
    (head : e.head = d.head) (examples_ : e.heading = none → e.examples = []) : e.WellFormed := by
  obtain ⟨number, exported, -, heading, code⟩ := head_eq_iff.1 head
  constructor
  · rw [heading, number, code]
    exact h.element
  · intro hn
    obtain ⟨h1, h2, h3, -⟩ := h.narrative (heading ▸ hn)
    exact ⟨number.trans h1, exported.trans h2, code.trans h3, examples_ hn⟩

namespace Outline

variable {o o' : Outline} {d : Declaration}

/-- The declarations are well formed, and no category begins with a narrative. -/
structure WellFormed (o : Outline) : Prop where
  declarations : ∀ d ∈ o.declarations, d.WellFormed
  first : ∀ category, ∀ d ∈ (o.ofCategory category).head?, d.heading.isSome = true

theorem wellFormed_of_undeclared (h : o.declarations = []) : o.WellFormed where
  declarations d hd := by
    rw [h] at hd
    cases hd
  first category d hd := by
    rw [ofCategory, h] at hd
    cases hd

theorem ofCategory_heads (o : Outline) (category : Category) :
    (o.ofCategory category).map Declaration.head =
      o.heads.filter (·.category == category) := by
  rw [heads, List.filter_map]
  rfl

/-- Comments may change in any way, and the examples of elements. -/
theorem WellFormed.of_heads (h : o.WellFormed) (heads : o'.heads = o.heads)
    (examples_ : ∀ d ∈ o'.declarations, d.heading = none → d.examples = []) : o'.WellFormed where
  declarations d hd := by
    have hm : d.head ∈ o.heads := heads ▸ List.mem_map_of_mem hd
    obtain ⟨e, he, head⟩ := List.mem_map.1 hm
    exact (h.declarations e he).of_head head.symm (examples_ d hd)
  first category d hd := by
    have same : (o'.ofCategory category).map Declaration.head =
        (o.ofCategory category).map Declaration.head := by
      rw [ofCategory_heads, ofCategory_heads, heads]
    have hd' : ((o.ofCategory category).map Declaration.head).head? = some d.head := by
      rw [← same, List.head?_map, hd, Option.map_some]
    rw [List.head?_map] at hd'
    obtain ⟨e, he, head⟩ := Option.map_eq_some_iff.1 hd'
    rw [← (Declaration.head_eq_iff.1 head).2.2.2.1]
    exact h.first category e he

/-- A declaration may be added, a narrative behind one of its category. -/
theorem WellFormed.add (h : o.WellFormed) (hd : d.WellFormed)
    (behind : d.heading = none → ∃ e ∈ o.declarations, e.category = d.category) :
    (o.add d).WellFormed where
  declarations e he := by
    rcases List.mem_append.1 he with he | he
    · exact h.declarations e he
    · exact List.mem_singleton.1 he ▸ hd
  first category e he := by
    rw [ofCategory_add, List.head?_append] at he
    cases hf : (o.ofCategory category).head? with
    | some f =>
      rw [hf] at he
      exact Option.some.inj he ▸ h.first category f hf
    | none =>
      rw [hf, Option.none_or] at he
      split at he
      · next hc =>
        obtain rfl := Option.some.inj he
        cases hh : d.heading with
        | some heading => rfl
        | none =>
          obtain ⟨f, hm, hfc⟩ := behind hh
          have filed : f ∈ o.ofCategory category := by
            rw [ofCategory, List.mem_filter]
            exact ⟨hm, by simp [hfc, hc]⟩
          rw [List.head?_eq_none_iff.1 hf] at filed
          cases filed
      · cases he

theorem WellFormed.modifyLines (h : o.WellFormed) (place : Place) (f : List Text → List Text) :
    (o.modifyLines place f).WellFormed := by
  refine h.of_heads heads_modifyLines fun d hd hn => ?_
  cases place with
  | topMatter => exact ((h.declarations d hd).narrative hn).2.2.2
  | comment index =>
    obtain ⟨e, he, rfl | rfl⟩ := mem_modify hd
    · exact ((h.declarations _ he).narrative hn).2.2.2
    · exact ((h.declarations e he).narrative hn).2.2.2

/-- The examples of an element may change. -/
theorem WellFormed.modify (h : o.WellFormed) {index : Nat} (hd : o.declarations[index]? = some d)
    (element : d.heading.isSome = true) {g : Declaration → Declaration}
    (hg : ∀ d, (g d).head = d.head) : (o.modify index g).WellFormed := by
  refine h.of_heads (heads_modify o index hg) fun e he hn => ?_
  obtain ⟨i, hi⟩ := List.mem_iff_getElem?.1 he
  rw [Outline.modify, List.getElem?_modify] at hi
  split at hi
  · next same =>
    subst same
    rw [hd] at hi
    obtain rfl : g d = e := Option.some.inj hi
    rw [(Declaration.head_eq_iff.1 (hg d)).2.2.2.1] at hn
    rw [hn] at element
    cases element
  · have there : o.declarations[i]? = some e := by simpa using hi
    exact ((h.declarations e (List.mem_of_getElem? there)).narrative hn).2.2.2

end Outline

namespace Scan

variable {s s' : Scan} {text line : Text} {number : Int}

theorem wellFormed_register (h : s.outline.WellFormed) {d : Declaration} (hd : d.WellFormed)
    (element : d.heading.isSome = true) : (s.register d).outline.WellFormed := by
  unfold register
  split
  · exact h
  · exact h.add hd fun hn => by rw [hn] at element; cases element

theorem wellFormed_flushPending (hs : s.Sound) (h : s.outline.WellFormed) :
    s.flushPending.outline.WellFormed := by
  cases hp : s.pending.lines with
  | nil => rwa [flushPending_of_empty hp]
  | cons first rest =>
    simp only [flushPending, hp]
    have counted : 1 ≤ s.pending.lineNumber := (hs.pending (by simp [hp])).2.2.2.1
    refine wellFormed_register (s := { s with pending := { s.pending with lines := [] } }) h ?_ rfl
    exact Declaration.wellFormed_element rfl ⟨counted, List.cons_ne_nil _ _⟩

/-- A narrative stands behind the latest declaration, in its category. -/
theorem wellFormed_commentPlace (hs : s.Sound) (h : s.outline.WellFormed) (hc : s.current = none)
    (hn : s.narrative = none) : s.commentPlace.2.outline.WellFormed := by
  cases latest : s.lastCategory with
  | none =>
    simp only [commentPlace, hc, hn, latest]
    split
    · exact h.modifyLines .topMatter (· ++ [[]])
    · exact h
  | some category =>
    simp only [commentPlace, hc, hn, latest]
    rw [hs.lastCategory] at latest
    obtain ⟨e, he, hec⟩ := Option.map_eq_some_iff.1 latest
    exact h.add (Declaration.wellFormed_narrative category) fun _ =>
      ⟨e, List.mem_of_getLast? he, hec⟩

theorem DocMove.wellFormed (hs : s.Sound) (h : s.outline.WellFormed) (hm : DocMove text s s') :
    s'.outline.WellFormed := by
  cases hm.effect hs with
  | fence => exact h
  | @append place _ ls => exact h.modifyLines place (· ++ ls)
  | @heading place above _ _ _ level =>
    exact h.modifyLines place (·.dropLast ++ [headingLine level above])
  | narrative hc hn => exact wellFormed_commentPlace hs h hc hn

theorem wellFormed_commitHeld (h : s.outline.WellFormed) : s.commitHeld.outline.WellFormed := by
  unfold commitHeld
  split
  · exact h
  · next above _ => exact h.modifyLines .topMatter (· ++ [above])

/-- The current declaration is an element, so it may have examples. -/
theorem wellFormed_captureLine (hs : s.Sound) (h : s.outline.WellFormed) (line : Text) :
    (s.captureLine line).2.outline.WellFormed := by
  unfold captureLine
  split
  · exact h
  · split
    · exact h
    · next index hc =>
      obtain ⟨-, -, -, d, hd, element⟩ := hs.current index hc
      split
      · refine h.modify hd element fun e => ?_
        split <;> rfl
      · exact h.modify hd element fun e => rfl

theorem Move.wellFormed (hn : 1 ≤ number) (hs : s.Sound) (h : s.outline.WellFormed)
    (hm : Move number line s s') : s'.outline.WellFormed := by
  cases hm with
  | doc _ hm => exact hm.wellFormed hs h
  | copyright => exact (h.modifyLines .topMatter (· ++ [_])).modifyLines .topMatter (· ++ [[]])
  | commitHeld => exact wellFormed_commitHeld h
  | headHeld => exact h.modifyLines .topMatter (· ++ [_])
  | flush => exact wellFormed_flushPending hs h
  | declare =>
    exact wellFormed_register h
      (Declaration.wellFormed_element rfl ⟨hn, List.cons_ne_nil _ _⟩) rfl
  | listImport | listInclude => exact ⟨h.declarations, h.first⟩
  | capture => exact wellFormed_captureLine hs h line
  | beginDoc | hold | enterCode | endDeclaration | accept | enterSection => exact h
  | start | extend | replace | startCapture => exact h

/-- A scan comes to a well-formed outline, and has not changed its mind about what it leaves
out. -/
theorem lines_wellFormed (exportedOnly : Bool) (ls : List Text) :
    ∃ s, (fresh exportedOnly).lines 1 ls = .ok s ∧ s.finish.Sound ∧
      s.finish.outline.WellFormed ∧ s.finish.exportedOnly = exportedOnly := by
  have step {n : Int} {line : Text} (hn : 1 ≤ n) (s s' : Scan) (hs : s.Sound)
      (h : s.outline.WellFormed ∧ s.exportedOnly = exportedOnly) (hm : Move n line s s') :
      s'.outline.WellFormed ∧ s'.exportedOnly = exportedOnly :=
    ⟨hm.wellFormed hn hs h.1, (hm.exportedOnly hs).trans h.2⟩
  obtain ⟨s, he, hs, h⟩ := lines_keep ls (fun _ _ hn _ => step hn) 1 (Nat.le_refl 1)
    (fresh_sound exportedOnly) ⟨Outline.wellFormed_of_undeclared rfl, rfl⟩
  obtain ⟨hs', h'⟩ := finish_keep (step (Int.le_refl 1)) hs h
  exact ⟨s, he, hs', h'⟩

end Scan

namespace Source

/-- **Outlines are well formed.** Under each category stand declarations of that category, the
first of which is an element. An element has a line of the source and code, and a narrative has
neither, and no examples. Where only exported elements are wanted there is nothing else. -/
theorem outline_wellFormed {settings : Settings} {options : Options}
    (valid : settings.validate = .ok options) (content : Text) :
    ∃ o, outline settings content = .ok o ∧
      (∀ category, ∀ d ∈ o.ofCategory category, d.category = category ∧
        (d.heading = none →
          d.lineNumber = 0 ∧ d.isExported = true ∧ d.code = [] ∧ d.examples = []) ∧
        (d.heading ≠ none → 1 ≤ d.lineNumber ∧ d.code ≠ []) ∧
        (options.on .exportedOnly = true → d.isExported = true)) ∧
      ∀ category d rest, o.ofCategory category = d :: rest → d.heading ≠ none := by
  obtain ⟨s, he, hs, wellFormed, filter⟩ :=
    Scan.lines_wellFormed (options.on .exportedOnly) (Scan.sourceLines content)
  refine ⟨_, outline_of_source valid (Scan.source_of_lines he), ?_, ?_⟩
  · intro category d hd
    obtain ⟨hm, hc⟩ := List.mem_filter.1 hd
    have formed := wellFormed.declarations d hm
    refine ⟨beq_iff_eq.1 hc, formed.narrative, fun hh => ?_, fun only => ?_⟩
    · exact formed.element (Option.isSome_iff_ne_none.2 hh)
    · exact hs.exported (filter.trans only) d hm
  · intro category d rest hd
    refine Option.isSome_iff_ne_none.1 (wellFormed.first category d ?_)
    rw [hd]
    rfl

/-- A hidden routine, an exported one with examples, and narratives behind each of them. -/
def narratives : Text :=
  ("proc a() = discard\n\n## Before\n\nproc b*() = discard\n  runnableExamples:\n    b()\n\n" ++
    "## Behind\n\nconst c* = 1\n").toList

theorem outline_wellFormed_narratives :
    let only := Settings.byDefault.set (.toggle .exportedOnly) (.bool true)
    only.validate = .ok only.toOptions ∧
      ∃ o, outline only narratives = .ok o ∧
        (∀ category, ∀ d ∈ o.ofCategory category, d.category = category ∧
          (d.heading = none →
            d.lineNumber = 0 ∧ d.isExported = true ∧ d.code = [] ∧ d.examples = []) ∧
          (d.heading ≠ none → 1 ≤ d.lineNumber ∧ d.code ≠ []) ∧
          (only.toOptions.on .exportedOnly = true → d.isExported = true)) ∧
        ∀ category d rest, o.ofCategory category = d :: rest → d.heading ≠ none :=
  ⟨rfl, outline_wellFormed rfl narratives⟩

end Source

end NimMarkdown
