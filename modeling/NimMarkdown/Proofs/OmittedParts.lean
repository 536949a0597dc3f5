import NimMarkdown.Proofs.Assembly
import NimMarkdown.Proofs.EffectiveSettings

/-!
# Parts that are left out

A part of a document may be left out by its toggle, or because the outline has no data
for it, and the document does not show which of the two it was (`render_switchOff`).
What is shown under some toggles is therefore what the outline without these parts
shows under the others (`Outline.render_erase`), one part after the other.
-/

namespace NimMarkdown

/-- A part of a document that has a toggle of its own. -/
inductive Part where
  | consts | lets | vars
  /-- The lists of imports and includes. -/
  | imports
  | examples
  deriving DecidableEq, Repr

namespace Part

/-- The toggle that leaves the part out. -/
def toggle : Part → Toggle
  | .consts => .consts
  | .lets => .lets
  | .vars => .vars
  | .imports => .imports
  | .examples => .examples

end Part

/-- The toggles, with those of some parts switched off. -/
def withoutParts (on : Toggle → Bool) (off : List Part) : Toggle → Bool :=
  fun t => on t && off.all (·.toggle != t)

def Declaration.withoutExamples (d : Declaration) : Declaration := { d with examples := [] }

def Settings.switchOff (s : Settings) (p : Part) : Settings :=
  s.set (.toggle p.toggle) (.bool false)

namespace Outline

/-- The outline without the declarations of a category. -/
def withoutCategory (o : Outline) (c : Category) : Outline :=
  { o with declarations := o.declarations.filter (·.category != c) }

/-- The outline without the data of a part. -/
def erase (o : Outline) : Part → Outline
  | .consts => o.withoutCategory .consts
  | .lets => o.withoutCategory .lets
  | .vars => o.withoutCategory .vars
  | .imports => { o with imports := [], includes := [] }
  | .examples => { o with declarations := o.declarations.map Declaration.withoutExamples }

end Outline

variable {on on' : Toggle → Bool} {o o' : Outline} {off erased : List Part}

/-! ## One part -/

theorem Declaration.render_congr {d : Declaration} (headings : on' .headings = on .headings)
    (lineNumbers : on' .lineNumbers = on .lineNumbers) (examples_ : on' .examples = on .examples) :
    d.render on' = d.render on := by
  simp only [render, renderCode, headings, lineNumbers, examples_]

theorem Declaration.render_withoutExamples {d : Declaration}
    (headings : on' .headings = on .headings) (lineNumbers : on' .lineNumbers = on .lineNumbers)
    (examples_ : on' .examples = false) : d.withoutExamples.render on = d.render on' := by
  have nothing : trimBlankLines [] = [] := rfl
  simp only [render, renderCode, withoutExamples, headings, lineNumbers, examples_, nothing,
    List.isEmpty_nil, Bool.not_true, Bool.and_false, Bool.false_and, Bool.false_eq_true, if_false]
  rfl

theorem Category.isOn_congr (h : ∀ t ∈ [Toggle.consts, .lets, .vars], on' t = on t) (c : Category) :
    c.isOn on' = c.isOn on := by
  cases c with
  | consts | lets | vars => exact h _ (by decide)
  | _ => rfl

namespace Outline

/-- The lists of imports and includes, as the document shows them. -/
def listChunks (o : Outline) (on : Toggle → Bool) : List (List Text) :=
  if on .imports then [bulletChunk "# Imports" o.imports, bulletChunk "# Includes" o.includes]
  else []

/-- What a document depends on: the top matter, the lists that are not empty, and the blocks of the
categories that are shown. -/
theorem render_congr (top : o'.topMatter = o.topMatter)
    (lists : (o'.listChunks on').filter (fun chunk => !chunk.isEmpty) =
      (o.listChunks on).filter fun chunk => !chunk.isEmpty)
    (types : on' .types = on .types) (shown : o'.shownCategories on' = o.shownCategories on)
    (blocks : ∀ c ∈ o.shownCategories on, (o'.ofCategory c).map (Declaration.render · on') =
      (o.ofCategory c).map (Declaration.render · on)) :
    o'.render on' = o.render on := by
  have lines (o : Outline) (on : Toggle → Bool) : (o.render on).lines =
      [[]].intercalate (([trimBlankLines o.topMatter] ++ o.listChunks on ++
        (if !(o.shownCategories on).isEmpty && on .types then [["# Types".toList]] else []) ++
        (o.shownCategories on).flatMap fun c => o.categoryChunks on c).filter
          fun chunk => !chunk.isEmpty) :=
    foldl_appendChunk [] _
  have chunks : ∀ c ∈ o.shownCategories on, o'.categoryChunks on' c = o.categoryChunks on c := by
    intro c hc
    rw [categoryChunks, categoryChunks, types, blocks c hc]
  refine congrArg Document.mk ((lines o' on').trans (.trans ?_ (lines o on).symm))
  simp only [List.filter_append, lists, top, types, shown, List.flatMap_congr chunks]

theorem ofCategory_withoutCategory (o : Outline) (c c' : Category) :
    (o.withoutCategory c).ofCategory c' = if c' = c then [] else o.ofCategory c' := by
  rw [ofCategory, withoutCategory, List.filter_filter]
  split
  · next same => simp [same]
  · next other =>
    refine List.filter_congr fun d _ => ?_
    by_cases hd : d.category = c' <;> simp [hd, other]

theorem ofCategory_withoutExamples (o : Outline) (c : Category) :
    (o.erase .examples).ofCategory c = (o.ofCategory c).map Declaration.withoutExamples := by
  rw [ofCategory, erase, List.filter_map]
  rfl

theorem render_withoutCategory {c : Category} (isOn : ∀ c', c'.isOn on' = (c'.isOn on && c' != c))
    (same : ∀ t ∈ [Toggle.headings, .imports, .types, .lineNumbers, .examples], on' t = on t) :
    (o.withoutCategory c).render on = o.render on' := by
  simp only [List.forall_mem_cons, List.not_mem_nil, false_implies, implies_true, and_true] at same
  obtain ⟨headings, imports, types, lineNumbers, examples_⟩ := same
  have shown : (o.withoutCategory c).shownCategories on = o.shownCategories on' := by
    refine List.filter_congr fun c' _ => ?_
    rw [isOn, ofCategory_withoutCategory]
    by_cases hc : c' = c
    · simp [hc]
    · simp [hc, bne_iff_ne.2 hc]
  refine render_congr rfl ?_ types.symm shown fun c' hc => ?_
  · simp only [listChunks, imports]
    rfl
  · have other : c' ≠ c := by
      rintro rfl
      simp [shownCategories, isOn] at hc
    rw [ofCategory_withoutCategory, if_neg other]
    simp only [Declaration.render_congr headings lineNumbers examples_]

/-- A part that is switched off is as one that has no data. -/
theorem render_erase (o : Outline) (p : Part) (on : Toggle → Bool) :
    (o.erase p).render on = o.render (withoutParts on [p]) := by
  have other {t : Toggle} (h : p.toggle ≠ t) : withoutParts on [p] t = on t := by
    simp [withoutParts, h]
  have off : withoutParts on [p] p.toggle = false := by simp [withoutParts]
  have shown (h : ∀ t ∈ [Toggle.consts, .lets, .vars], p.toggle ≠ t) (c : Category) :
      c.isOn (withoutParts on [p]) = c.isOn on :=
    Category.isOn_congr (fun t ht => other (h t ht)) c
  cases p with
  | consts | lets | vars =>
    refine render_withoutCategory (fun c => ?_) fun t ht => other ?_
    · cases c <;> rfl
    · rintro rfl
      simp [Part.toggle] at ht
  | imports =>
    have off : withoutParts on [.imports] .imports = false := off
    refine render_congr rfl ?_ (other (by decide)).symm ?_ fun c _ => ?_
    · rw [listChunks, listChunks, off]
      cases on .imports <;> rfl
    · refine List.filter_congr fun c _ => ?_
      rw [shown (by decide)]
      rfl
    · exact List.map_congr_left fun d _ => (Declaration.render_congr (other (by decide))
        (other (by decide)) (other (by decide))).symm
  | examples =>
    refine render_congr rfl ?_ (other (by decide)).symm ?_ fun c _ => ?_
    · rw [listChunks, listChunks, other (by decide)]
      rfl
    · refine List.filter_congr fun c _ => ?_
      rw [shown (by decide), ofCategory_withoutExamples, List.isEmpty_map]
    · rw [ofCategory_withoutExamples, List.map_map]
      exact List.map_congr_left fun d _ => Declaration.render_withoutExamples (other (by decide))
        (other (by decide)) off

end Outline

/-! ## Several parts -/

theorem withoutParts_nil (on : Toggle → Bool) : withoutParts on [] = on :=
  funext fun t => Bool.and_true (on t)

theorem withoutParts_append (on : Toggle → Bool) (off off' : List Part) :
    withoutParts (withoutParts on off) off' = withoutParts on (off ++ off') := by
  funext t
  rw [withoutParts, withoutParts, withoutParts, List.all_append, Bool.and_assoc]

theorem withoutParts_congr (same : ∀ p, p ∈ off ↔ p ∈ erased) (on : Toggle → Bool) :
    withoutParts on off = withoutParts on erased := by
  funext t
  have all : off.all (·.toggle != t) = erased.all (·.toggle != t) := by
    rw [Bool.eq_iff_iff, List.all_eq_true, List.all_eq_true]
    simp only [same]
  rw [withoutParts, withoutParts, all]

theorem Outline.render_foldl_erase (o : Outline) (erased : List Part) (on : Toggle → Bool) :
    (erased.foldl Outline.erase o).render on = o.render (withoutParts on erased) := by
  induction erased generalizing o with
  | nil => rw [withoutParts_nil, List.foldl_nil]
  | cons p rest ih =>
    have swap : ∀ q, q ∈ rest ++ [p] ↔ q ∈ p :: rest := by simp [or_comm]
    rw [List.foldl_cons, ih, Outline.render_erase, withoutParts_append, withoutParts_congr swap]

namespace Settings

variable {s : Settings}

theorem switchOff_valid (valid : s.Valid) (p : Part) : (s.switchOff p).Valid where
  toggle t := by
    by_cases ht : t = p.toggle
    · exact ⟨false, by simp [switchOff, ht]⟩
    · simpa [switchOff, ht] using valid.toggle t
  limit l := by simpa [switchOff] using valid.limit l

theorem switchOff_on (s : Settings) (p : Part) :
    (s.switchOff p).toOptions.on = withoutParts s.toOptions.on [p] := by
  funext t
  by_cases ht : t = p.toggle
  · simp [switchOff, toOptions, withoutParts, ht, Value.isSet]
  · simp [switchOff, toOptions, withoutParts, ht, Ne.symm ht]

theorem foldl_switchOff (valid : s.Valid) (off : List Part) :
    (off.foldl switchOff s).Valid ∧
      (off.foldl switchOff s).toOptions.on = withoutParts s.toOptions.on off := by
  induction off generalizing s with
  | nil => exact ⟨valid, (withoutParts_nil _).symm⟩
  | cons p rest ih =>
    obtain ⟨valid', on⟩ := ih (switchOff_valid valid p)
    refine ⟨valid', on.trans ?_⟩
    rw [switchOff_on, withoutParts_append]
    rfl

end Settings

namespace Source

/-- **To switch a part off is to erase its data.** The settings are valid. Any parts are switched
off in any order, and from the same outline the data of these parts are erased, in any order too:
there is a document of each, and it is the same. -/
theorem render_switchOff {settings : Settings} {options : Options}
    (valid : settings.validate = .ok options) {off erased : List Part}
    (same : ∀ p, p ∈ off ↔ p ∈ erased) (o : Outline) :
    ∃ d, render (off.foldl Settings.switchOff settings) o = .ok d ∧
      render settings (erased.foldl Outline.erase o) = .ok d := by
  have valid := (Settings.validate_eq_ok_iff.1 valid).1
  obtain ⟨valid', on⟩ := Settings.foldl_switchOff valid off
  refine ⟨(erased.foldl Outline.erase o).render settings.toOptions.on, ?_, ?_⟩
  · rw [render, Settings.validate_eq_ok_iff.2 ⟨valid', rfl⟩, Outline.render_foldl_erase,
      ← withoutParts_congr same, ← on]
    rfl
  · rw [render, Settings.validate_eq_ok_iff.2 ⟨valid, rfl⟩]
    rfl

/-- Constants and variables, one of them with an example, and no other declarations. -/
def sectionsOnly : Outline where
  topMatter := ["Sizes".toList]
  imports := ["- os".toList]
  declarations :=
    [{ lineNumber := 3, isExported := true, category := .consts, heading := some "width*".toList,
       code := ["width* = 80".toList], examples := ["check width".toList] },
     { lineNumber := 5, isExported := false, category := .vars, heading := some "height".toList,
       code := ["height = 24".toList], comment := ["Rows".toList] }]

/-- Nothing is left below the heading of the declarations, so that it is left out too. -/
theorem render_switchOff_sectionsOnly :
    let settings := Settings.byDefault.set (.toggle .lineNumbers) (.bool true)
    let off := [Part.vars, .examples, .consts, .vars]
    let erased := [Part.consts, .vars, .examples]
    settings.validate = .ok settings.toOptions ∧ (∀ p, p ∈ off ↔ p ∈ erased) ∧
      ∃ d, render (off.foldl Settings.switchOff settings) sectionsOnly = .ok d ∧
        render settings (erased.foldl Outline.erase sectionsOnly) = .ok d := by
  intro settings off erased
  have valid : settings.validate = .ok settings.toOptions := rfl
  have same : ∀ p, p ∈ off ↔ p ∈ erased := by
    intro p
    cases p <;> decide
  exact ⟨valid, same, render_switchOff valid same sectionsOnly⟩

end Source

end NimMarkdown
