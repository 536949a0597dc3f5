import NimMarkdown.Proofs.Outline
import NimMarkdown.Scan.Source

/-!
# Sound scans

`Scan.Sound` is what holds of the state of a scan between two lines. Its parts
say how the fields fit together:

* a code block that is closed has no trace left, one that is open has a place
  (`Fence.Sound`), and that place is where doc lines go (`docPlace`);
* a signature of which lines are missing, a code block and a block of examples
  exclude each other;
* the current declaration and the narrative are the last of the outline.

The rest of the module has one lemma for each change that keeps a scan sound.
`Sound.outline` covers every change of the texts in an outline, `Sound.fenced`
every change of the fence; the operations of a scan are put together from these.
-/

namespace NimMarkdown

/-- The fields of a fence fit together. -/
structure Fence.Sound (f : Fence) : Prop where
  closed : f.isOpen = false → f = {}
  placed : f.isOpen = true → f.place.isSome = true
  start : f.isOpen = true → (f.atStart = true ↔ f.indent = none)
  start_blank : f.atStart = true → f.blankHeld = false
  indent_pos : ∀ n, f.indent = some n → 1 ≤ n

theorem Fence.sound_closed : ({} : Fence).Sound where
  closed _ := rfl
  placed := nofun
  start := nofun
  start_blank := nofun
  indent_pos := nofun

namespace Scan

/-- Where the next doc line goes: the top matter, and in the code the comment of the
current declaration or the narrative. -/
def docPlace (s : Scan) : Option Place :=
  if s.inCode then
    match s.current with
    | some index => some (.comment index)
    | none => s.narrative
  else some .topMatter

/-- Changes the lines at a place. -/
def edit (s : Scan) (place : Place) (f : List Text → List Text) : Scan :=
  { s with outline := s.outline.modifyLines place f }

/-- The fields of a scan fit together, as they do before each line and at the end. -/
structure Sound (s : Scan) : Prop where
  fence : s.fence.Sound
  /-- While a code block is open nothing else is, and it stands where doc lines go. -/
  fence_open : s.fence.isOpen = true → s.held = none ∧ s.pending.lines = [] ∧
    s.capture.active = false ∧ s.admitting = true ∧ s.fence.place = s.docPlace
  /-- A signature is begun by a routine, and while it is open nothing else is. -/
  pending : s.pending.lines ≠ [] → s.current = none ∧ s.narrative = none ∧
    s.capture.active = false ∧ 1 ≤ s.pending.lineNumber ∧
    ∃ first rest, s.pending.lines = first :: rest ∧ (Line.routine? first).isSome = true
  /-- The current declaration is the last one, and has a heading. -/
  current : ∀ i, s.current = some i → s.narrative = none ∧ s.admitting = true ∧
    i + 1 = s.outline.declarations.length ∧
    ∃ d, s.outline.declarations[i]? = some d ∧ d.heading.isSome = true
  /-- The narrative is the top matter where there is no declaration, else the last
  declaration, which has no heading. -/
  narrative : ∀ place, s.narrative = some place → s.admitting = true ∧
    ((place = .topMatter ∧ s.outline.declarations = []) ∨
      ∃ i d, place = .comment i ∧ i + 1 = s.outline.declarations.length ∧
        s.outline.declarations[i]? = some d ∧ d.heading = none)
  lastCategory : s.lastCategory = s.outline.declarations.getLast?.map Declaration.category
  top : s.inCode = false → s.pending.lines = [] ∧ s.current = none ∧ s.narrative = none ∧
    s.outline.declarations = [] ∧ s.capture.active = false ∧ s.admitting = true
  code : s.inCode = true → s.held = none
  exported : s.exportedOnly = true → ∀ d ∈ s.outline.declarations, d.isExported = true
  admitting : s.exportedOnly = false → s.admitting = true
  capture : s.capture.active = false → s.capture.bodyIndent = none

theorem fresh_sound (exportedOnly : Bool) : (fresh exportedOnly).Sound where
  fence := Fence.sound_closed
  fence_open := nofun
  pending := fun h => (h rfl).elim
  current := nofun
  narrative := nofun
  lastCategory := rfl
  top := fun _ => ⟨rfl, rfl, rfl, rfl, rfl, rfl⟩
  code := nofun
  exported := fun _ _ hd => nomatch hd
  admitting := fun _ => rfl
  capture := fun _ => rfl

/-! ## Changes that keep a scan sound -/

section

variable {s : Scan}

/-- Nothing is open that would take a line. -/
def Idle (s : Scan) : Prop :=
  s.inCode = true ∧ s.fence.isOpen = false ∧ s.capture.active = false

theorem Sound.idle_of_pending (hs : s.Sound) (h : s.pending.lines ≠ []) : s.Idle := by
  refine ⟨?_, ?_, (hs.pending h).2.2.1⟩
  · cases hc : s.inCode with
    | true => rfl
    | false => exact (h (hs.top hc).1).elim
  · cases hc : s.fence.isOpen with
    | true => exact (h (hs.fence_open hc).2.1).elim
    | false => rfl

theorem Sound.current_concat (hs : s.Sound) {i : Nat} (h : s.current = some i) :
    ∃ before d, s.outline.declarations = before ++ [d] ∧ before.length = i ∧
      d.heading.isSome = true := by
  obtain ⟨-, -, hl, d, hd, hh⟩ := hs.current i h
  have hlast : s.outline.declarations.getLast? = some d := by
    rw [List.getLast?_eq_getElem?, ← hl, Nat.add_sub_cancel, hd]
  obtain ⟨before, hb⟩ := List.getLast?_eq_some_iff.1 hlast
  refine ⟨before, d, hb, ?_, hh⟩
  rw [hb, List.length_append, List.length_singleton] at hl
  omega

/-- Where doc lines are not taken there is no declaration that they could belong to. -/
theorem Sound.current_of_silent (hs : s.Sound) (silent : s.admitting = false) :
    s.current = none := by
  cases hc : s.current with
  | none => rfl
  | some i => exact nomatch (hs.current i hc).2.1.symm.trans silent

/-- Nor is a code block open. -/
theorem Sound.closed_of_silent (hs : s.Sound) (silent : s.admitting = false) :
    s.fence.isOpen = false := by
  cases ho : s.fence.isOpen with
  | false => rfl
  | true => exact nomatch (hs.fence_open ho).2.2.2.1.symm.trans silent

/-- While examples are read no code block is open. -/
theorem Sound.closed_of_capture (hs : s.Sound) (active : s.capture.active = true) :
    s.fence.isOpen = false := by
  cases ho : s.fence.isOpen with
  | false => rfl
  | true => exact nomatch (hs.fence_open ho).2.2.1.symm.trans active

theorem Sound.inCode_of_silent (hs : s.Sound) (silent : s.admitting = false) :
    s.inCode = true := by
  cases hi : s.inCode with
  | true => rfl
  | false => exact nomatch (hs.top hi).2.2.2.2.2.symm.trans silent

/-- The texts of the outline may change in any way. -/
theorem Sound.outline (hs : s.Sound) {o : Outline} (h : o.heads = s.outline.heads) :
    Sound { s with outline := o } := by
  have hlen := Outline.length_eq_of_heads h
  have hnil : o.declarations = [] ↔ s.outline.declarations = [] := by
    rw [← List.length_eq_zero_iff, hlen, List.length_eq_zero_iff]
  refine { hs with current := ?_, narrative := ?_, lastCategory := ?_, top := ?_, exported := ?_ }
  · intro i hi
    obtain ⟨hn, ha, hl, d, hd, hh⟩ := hs.current i hi
    obtain ⟨e, he, heq⟩ := Outline.getElem?_of_heads h hd
    exact ⟨hn, ha, hl.trans hlen.symm, e, he, (Declaration.head_eq_iff.1 heq).2.2.2.1 ▸ hh⟩
  · intro place hp
    obtain ⟨ha, ⟨ht, hd⟩ | ⟨i, d, hi, hl, hd, hh⟩⟩ := hs.narrative place hp
    · exact ⟨ha, .inl ⟨ht, hnil.2 hd⟩⟩
    · obtain ⟨e, he, heq⟩ := Outline.getElem?_of_heads h hd
      exact ⟨ha, .inr ⟨i, e, hi, hl.trans hlen.symm, he,
        (Declaration.head_eq_iff.1 heq).2.2.2.1.trans hh⟩⟩
  · have hcat : ∀ p : Outline, p.declarations.getLast?.map Declaration.category =
        p.heads.getLast?.map Declaration.category := by
      intro p
      simp [Outline.heads, List.getLast?_map, Option.map_map, Function.comp_def, Declaration.head]
    rw [hs.lastCategory, hcat, hcat, h]
  · intro hc
    obtain ⟨h1, h2, h3, h4, h5⟩ := hs.top hc
    exact ⟨h1, h2, h3, hnil.2 h4, h5⟩
  · intro he d hd
    have hm : d.head ∈ s.outline.heads := h ▸ List.mem_map_of_mem hd
    obtain ⟨e, hmem, heq⟩ := List.mem_map.1 hm
    exact (Declaration.head_eq_iff.1 heq).2.1 ▸ hs.exported he e hmem

theorem Sound.edit (hs : s.Sound) (place : Place) (f : List Text → List Text) :
    (s.edit place f).Sound :=
  hs.outline Outline.heads_modifyLines

/-- The fence may change to one that fits what else is open. -/
theorem Sound.fenced (hs : s.Sound) {f : Fence} (hf : f.Sound)
    (ho : f.isOpen = true → s.held = none ∧ s.pending.lines = [] ∧ s.capture.active = false ∧
      s.admitting = true ∧ f.place = s.docPlace) : Sound { s with fence := f } :=
  { hs with fence := hf, fence_open := ho }

theorem Sound.unfenced (hs : s.Sound) : Sound { s with fence := {} } :=
  hs.fenced Fence.sound_closed nofun

/-- A declaration may be registered where nothing is open. -/
theorem Sound.register (hs : s.Sound) (hi : s.Idle) (hp : s.pending.lines = [])
    (hn : s.narrative = none) {d : Declaration} (hd : d.heading.isSome = true) :
    (s.register d).Sound := by
  obtain ⟨hc, hf, hx⟩ := hi
  unfold Scan.register note
  split
  · next hex =>
    simp only [Bool.and_eq_true] at hex
    exact { hs with
      fence_open := fun h => by simp [hf] at h
      pending := fun h => (h hp).elim
      current := nofun
      narrative := fun place h => by simp [hn] at h
      top := fun h => by simp [hc] at h
      admitting := fun h => by simp [hex.1] at h }
  · next hex =>
    exact { hs with
      fence_open := fun h => by simp [hf] at h
      pending := fun h => (h hp).elim
      current := fun i h => by
        cases h
        exact ⟨hn, rfl, by simp [Outline.add], d, by simp [Outline.add], hd⟩
      narrative := fun place h => by simp [hn] at h
      lastCategory := by simp [Outline.add]
      top := fun h => by simp [hc] at h
      exported := fun he e hm => by
        rcases List.mem_append.1 hm with hm | hm
        · exact hs.exported he e hm
        · simp_all
      admitting := fun _ => rfl }

theorem Sound.clearPending (hs : s.Sound) :
    Sound { s with pending := { s.pending with lines := [] } } :=
  { hs with
    fence_open := fun h => ⟨(hs.fence_open h).1, rfl, (hs.fence_open h).2.2⟩
    pending := fun h => (h rfl).elim
    top := fun h => ⟨rfl, (hs.top h).2⟩ }

theorem Sound.flushPending (hs : s.Sound) : s.flushPending.Sound := by
  unfold Scan.flushPending
  split
  · exact hs
  · next first rest h =>
    have hne : s.pending.lines ≠ [] := by simp [h]
    exact hs.clearPending.register (hs.idle_of_pending hne) rfl (hs.pending hne).2.1 rfl

theorem Sound.endDeclaration (hs : s.Sound) (hf : s.fence.isOpen = false) :
    s.endDeclaration.Sound :=
  { hs with
    fence_open := fun h => by simp [Scan.endDeclaration, hf] at h
    pending := fun h => ⟨rfl, rfl, (hs.pending h).2.2⟩
    current := nofun
    narrative := nofun
    top := fun h => ⟨(hs.top h).1, rfl, rfl, (hs.top h).2.2.2⟩ }

theorem Sound.accept (hs : s.Sound) : Sound { s with admitting := true } :=
  { hs with
    fence_open := fun h =>
      have ⟨h1, h2, h3, _, h5⟩ := hs.fence_open h
      ⟨h1, h2, h3, rfl, h5⟩
    current := fun i h => ⟨(hs.current i h).1, rfl, (hs.current i h).2.2⟩
    narrative := fun place h => ⟨rfl, (hs.narrative place h).2⟩
    top := fun h =>
      have ⟨h1, h2, h3, h4, h5, _⟩ := hs.top h
      ⟨h1, h2, h3, h4, h5, rfl⟩
    admitting := fun _ => rfl }

end

end Scan

end NimMarkdown
