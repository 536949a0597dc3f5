import NimMarkdown.Outline

/-!
# Changes of an outline

Once a declaration is in an outline only its comment and its examples change.
`Declaration.head` is the rest of it, and `Outline.heads` are the heads of all
declarations; every change at a place keeps them. `linesAt_modifyLines` says what
a change at one place does to the lines at another.
-/

namespace NimMarkdown

/-- A declaration without its comment and examples. -/
def Declaration.head (d : Declaration) : Declaration := { d with comment := [], examples := [] }

theorem Declaration.head_eq_iff {d e : Declaration} : d.head = e.head ↔
    d.lineNumber = e.lineNumber ∧ d.isExported = e.isExported ∧ d.category = e.category ∧
      d.heading = e.heading ∧ d.code = e.code := by
  simp [head]

theorem modify_concat {α : Type} (xs : List α) (x : α) (f : α → α) :
    (xs ++ [x]).modify xs.length f = xs ++ [f x] := by
  induction xs with
  | nil => rfl
  | cons y ys ih => simp [ih]

theorem mem_modify {α : Type} {xs : List α} {i : Nat} {f : α → α} {y : α}
    (h : y ∈ xs.modify i f) : ∃ x ∈ xs, y = x ∨ y = f x := by
  obtain ⟨j, hj⟩ := List.mem_iff_getElem?.1 h
  rw [List.getElem?_modify] at hj
  obtain ⟨x, hx, hy⟩ := Option.map_eq_some_iff.1 hj
  refine ⟨x, List.mem_of_getElem? hx, ?_⟩
  split at hy
  · exact .inr hy.symm
  · exact .inl hy.symm

namespace Outline

variable {o : Outline} {place : Place} {f : List Text → List Text}

/-- The declarations without their comments and examples. -/
def heads (o : Outline) : List Declaration := o.declarations.map Declaration.head

/-- The outline has the place. -/
def Has (o : Outline) : Place → Prop
  | .topMatter => True
  | .comment index => index < o.declarations.length

theorem heads_modify (o : Outline) (index : Nat) {g : Declaration → Declaration}
    (hg : ∀ d, (g d).head = d.head) : (o.modify index g).heads = o.heads := by
  apply List.ext_getElem?
  intro i
  simp only [heads, modify, List.getElem?_map, List.getElem?_modify]
  split <;> cases o.declarations[i]? <;> simp [hg]

@[simp] theorem heads_modifyLines : (o.modifyLines place f).heads = o.heads := by
  cases place with
  | topMatter => rfl
  | comment index => exact heads_modify o index fun _ => rfl

@[simp] theorem imports_modifyLines : (o.modifyLines place f).imports = o.imports := by
  cases place <;> rfl

@[simp] theorem includes_modifyLines : (o.modifyLines place f).includes = o.includes := by
  cases place <;> rfl

theorem modifyLines_modifyLines {g : List Text → List Text} :
    (o.modifyLines place f).modifyLines place g = o.modifyLines place (g ∘ f) := by
  cases place with
  | topMatter => rfl
  | comment index => simp [modifyLines, modify, List.modify_modify_eq]; rfl

theorem length_eq_of_heads {o o' : Outline} (h : o'.heads = o.heads) :
    o'.declarations.length = o.declarations.length := by
  simpa [heads] using congrArg List.length h

theorem getElem?_of_heads {o o' : Outline} (h : o'.heads = o.heads) {i : Nat} {d : Declaration}
    (hd : o.declarations[i]? = some d) : ∃ e, o'.declarations[i]? = some e ∧ e.head = d.head := by
  have hi : (o'.heads)[i]? = some d.head := by rw [h]; simp [heads, hd]
  simpa [heads] using hi

theorem has_of_heads {o o' : Outline} (h : o'.heads = o.heads) (hp : o.Has place) :
    o'.Has place := by
  cases place with
  | topMatter => trivial
  | comment index => simpa [Has, length_eq_of_heads h] using hp

/-- A change at a place that the outline has is seen there and nowhere else. -/
theorem linesAt_modifyLines (hp : o.Has place) (other : Place) :
    (o.modifyLines place f).linesAt other =
      if other = place then f (o.linesAt place) else o.linesAt other := by
  cases place with
  | topMatter => cases other <;> simp [modifyLines, linesAt]
  | comment index =>
    cases other with
    | topMatter => simp [modifyLines, linesAt, modify]
    | comment i =>
      simp only [modifyLines, linesAt, modify, List.getElem?_modify, Place.comment.injEq]
      by_cases h : index = i
      · subst h
        simp [List.getElem?_eq_getElem (show index < o.declarations.length from hp)]
      · simp [h, Ne.symm h]

theorem linesAt_modify (o : Outline) (index : Nat) {g : Declaration → Declaration}
    (hg : ∀ d, (g d).comment = d.comment) (place : Place) :
    (o.modify index g).linesAt place = o.linesAt place := by
  cases place with
  | topMatter => rfl
  | comment i =>
    simp only [linesAt, modify, List.getElem?_modify]
    split <;> cases o.declarations[i]? <;> simp [hg]

theorem linesAt_add (hp : o.Has place) (d : Declaration) :
    (o.add d).linesAt place = o.linesAt place := by
  cases place with
  | topMatter => rfl
  | comment i =>
    simp only [linesAt, add]
    rw [List.getElem?_append_left hp]

/-- A place behind an addition is one from before, or the comment of the new declaration. -/
theorem linesAt_add_cases {d : Declaration} (hp : (o.add d).Has place) :
    (o.Has place ∧ (o.add d).linesAt place = o.linesAt place) ∨
      (place = .comment o.declarations.length ∧ (o.add d).linesAt place = d.comment) := by
  by_cases hp' : o.Has place
  · exact .inl ⟨hp', linesAt_add hp' d⟩
  · cases place with
    | topMatter => exact (hp' trivial).elim
    | comment i =>
      obtain rfl : i = o.declarations.length := by
        have hlt : i < (o.declarations ++ [d]).length := hp
        have hge : ¬ i < o.declarations.length := hp'
        simp at hlt
        omega
      exact .inr ⟨rfl, by simp [linesAt, add]⟩

end Outline

end NimMarkdown
