import Mathlib.Data.List.Flatten
import Mathlib.Data.List.Induction
import NimMarkdown.FileTree.Canonical

/-!
# Paths and their texts

The text of a path is read back to its names (`filter_splitNames_toText`), as long
as these are names that a text can have (`Path.Plain`), and it is the shorter the
fewer names there are (`length_toText_le`). `Path.collapse` takes names one by
one; a name goes to the end and `..` drops what is there.
-/

namespace NimMarkdown.Path

variable {p q : Path} {t : Text} {names : List Text}

theorem splitNames_eq_splitOn (t : Text) : splitNames t = t.splitOn '/' := by
  induction t with
  | nil => rfl
  | cons c t ih =>
    unfold splitNames at ih ⊢
    rw [List.foldr_cons, ih, List.splitOn, List.splitOn, List.splitOnP_cons_eq_if_modifyHead]
    simp only [beq_iff_eq]
    split
    · rfl
    · split
      · next he => exact (List.splitOnP_ne_nil _ t he).elim
      · next he => rw [he]; rfl

/-- The names are such as a text is split into. -/
def Plain (names : List Text) : Prop := ∀ name ∈ names, isProperName name = true ∧ '/' ∉ name

theorem slash_not_mem_splitNames (t : Text) : ∀ name ∈ splitNames t, '/' ∉ name := by
  induction t with
  | nil => simp [splitNames]
  | cons c t ih =>
    unfold splitNames at ih ⊢
    simp only [List.foldr_cons]
    split
    · exact List.forall_mem_cons.2 ⟨List.not_mem_nil, ih⟩
    · next hc =>
      split
      · simpa using Ne.symm hc
      · next first rest he =>
        rw [he, List.forall_mem_cons] at ih
        exact List.forall_mem_cons.2 ⟨by simpa [ih.1] using Ne.symm hc, ih.2⟩

theorem plain_ofText (t : Text) : Plain (ofText t).names := by
  intro name h
  obtain ⟨hm, hp⟩ := List.mem_filter.1 h
  exact ⟨hp, slash_not_mem_splitNames t name hm⟩

theorem Plain.append {ms : List Text} (h : Plain names) (h' : Plain ms) : Plain (names ++ ms) := by
  intro name hm
  rcases List.mem_append.1 hm with hm | hm
  · exact h name hm
  · exact h' name hm

theorem Plain.of_subset {ms : List Text} (h : Plain names) (hs : ms ⊆ names) : Plain ms :=
  fun name hm => h name (hs hm)

theorem Plain.filter (h : Plain names) : names.filter isProperName = names :=
  List.filter_eq_self.2 fun name hm => (h name hm).1

/-- Names that are put together are read back. -/
theorem filter_splitNames_intercalate (h : Plain names) :
    (splitNames (['/'].intercalate names)).filter isProperName = names := by
  by_cases hn : names = []
  · subst hn
    rfl
  · rw [splitNames_eq_splitOn, List.splitOn_intercalate '/' (fun name hm => (h name hm).2) hn,
      h.filter]

/-- The text of a path has its names. -/
theorem filter_splitNames_toText (h : Plain p.names) :
    (splitNames p.toText).filter isProperName = p.names := by
  have read := filter_splitNames_intercalate h
  have slash (t : Text) :
      (splitNames ('/' :: t)).filter isProperName = (splitNames t).filter isProperName := rfl
  unfold toText
  split
  · dsimp only
    split
    · next hn =>
      rw [List.isEmpty_iff.1 hn] at read
      exact read
    · exact read
  · rw [slash, read]
  · rw [slash, slash, read]

theorem head?_toText (h : Plain p.names) :
    (p.toText.head? == some '/') = p.isAbsolute := by
  obtain ⟨anchor, names⟩ := p
  cases anchor with
  | root | doubleRoot => rfl
  | relative =>
    have relative : isAbsolute ⟨.relative, names⟩ = false := rfl
    cases names with
    | nil => rfl
    | cons name rest =>
      obtain ⟨proper, slash⟩ := h name List.mem_cons_self
      cases name with
      | nil => cases proper
      | cons c name =>
        have hc : c ≠ '/' := fun hc => slash (hc ▸ List.mem_cons_self)
        rw [relative, toText]
        cases rest <;> simp [List.intercalate, hc]

theorem hasNull_of_subset (h : p.names ⊆ q.names) (null : p.hasNull = true) :
    q.hasNull = true := by
  obtain ⟨name, hm, hn⟩ := List.any_eq_true.1 null
  exact List.any_eq_true.2 ⟨name, h hm, hn⟩

theorem hasNull_parent (null : p.hasNull = false) : p.parent.hasNull = false := by
  cases hn : p.parent.hasNull with
  | false => rfl
  | true => exact (hasNull_of_subset (List.dropLast_subset p.names) hn).symm.trans null

@[simp] theorem parent_child (p : Path) (name : Text) : (p.child name).parent = p := by
  simp [child, parent]

/-! ## The length of the text -/

theorem length_encode_slash (t : Text) :
    (Utf8.encode ('/' :: t)).length = (Utf8.encode t).length + 1 := by
  rw [Utf8.encode, List.flatMap_cons, List.length_append]
  exact Nat.add_comm _ _

theorem slash_intercalate (h : names ≠ []) :
    '/' :: ['/'].intercalate names = names.flatMap ('/' :: ·) := by
  induction names with
  | nil => exact (h rfl).elim
  | cons name rest ih =>
    cases rest with
    | nil => simp
    | cons next rest =>
      rw [List.intercalate_cons_cons, List.flatMap_cons, ← ih (List.cons_ne_nil next rest)]
      simp

theorem length_encode_intercalate (names : List Text) :
    (Utf8.encode (['/'].intercalate names)).length =
      (Utf8.encode (names.flatMap ('/' :: ·))).length - 1 := by
  by_cases h : names = []
  · subst h
    rfl
  · rw [← slash_intercalate h, length_encode_slash, Nat.add_sub_cancel]

theorem one_le_length_encode (h : t ≠ []) : 1 ≤ (Utf8.encode t).length := by
  obtain ⟨c, rest, rfl⟩ := List.exists_cons_of_ne_nil h
  have one : 1 ≤ (Utf8.encodeChar c).length := by
    unfold Utf8.encodeChar
    dsimp only
    split_ifs <;> simp
  rw [Utf8.encode, List.flatMap_cons, List.length_append]
  omega

theorem length_toText_relative (names : List Text) :
    (Utf8.encode (toText ⟨.relative, names⟩)).length =
      max 1 (Utf8.encode (['/'].intercalate names)).length := by
  rw [toText]
  dsimp only
  split
  · next he =>
    rw [List.isEmpty_iff.1 he]
    rfl
  · next he =>
    have := one_le_length_encode (t := ['/'].intercalate names) (by simpa using he)
    omega

/-- With fewer names the text is no longer. -/
theorem length_toText_le {ns ms : List Text} (h : ns.Sublist ms) (anchor : Anchor) :
    (Utf8.encode (toText ⟨anchor, ns⟩)).length ≤ (Utf8.encode (toText ⟨anchor, ms⟩)).length := by
  have names : (Utf8.encode (['/'].intercalate ns)).length ≤
      (Utf8.encode (['/'].intercalate ms)).length := by
    rw [length_encode_intercalate, length_encode_intercalate]
    exact Nat.sub_le_sub_right ((h.flatMap ('/' :: ·)).flatMap Utf8.encodeChar).length_le 1
  cases anchor with
  | relative =>
    rw [length_toText_relative, length_toText_relative]
    omega
  | root =>
    simp only [toText, length_encode_slash]
    omega
  | doubleRoot =>
    simp only [toText, length_encode_slash]
    omega

/-- A name more takes a slash and its own bytes. -/
theorem length_toText_child (p : Path) (name : Text) : (Utf8.encode (p.child name).toText).length ≤
    (Utf8.encode p.toText).length + 1 + (Utf8.encode name).length := by
  obtain ⟨anchor, ns⟩ := p
  have names : (Utf8.encode (['/'].intercalate (ns ++ [name]))).length ≤
      (Utf8.encode (['/'].intercalate ns)).length + 1 + (Utf8.encode name).length := by
    have slashed : Utf8.encode ((ns ++ [name]).flatMap ('/' :: ·)) =
        Utf8.encode (ns.flatMap ('/' :: ·)) ++ Utf8.encode ('/' :: name) := by
      simp [Utf8.encode]
    rw [length_encode_intercalate, length_encode_intercalate, slashed, List.length_append,
      length_encode_slash]
    omega
  unfold child
  dsimp only
  cases anchor with
  | relative =>
    rw [length_toText_relative, length_toText_relative]
    omega
  | root =>
    simp only [toText, length_encode_slash]
    omega
  | doubleRoot =>
    simp only [toText, length_encode_slash]
    omega

theorem length_toText_anchor (absolute : p.isAbsolute = q.isAbsolute)
    (single : p.anchor ≠ .doubleRoot) (names : List Text) :
    (Utf8.encode (toText ⟨p.anchor, names⟩)).length ≤
      (Utf8.encode (toText ⟨q.anchor, names⟩)).length := by
  obtain ⟨a, _⟩ := p
  obtain ⟨b, _⟩ := q
  cases a with
  | doubleRoot => exact (single rfl).elim
  | relative => cases b <;> first | exact Nat.le_refl _ | cases absolute
  | root =>
    cases b with
    | relative => cases absolute
    | root => exact Nat.le_refl _
    | doubleRoot =>
      simp only [toText, length_encode_slash]
      omega

/-! ## Names without `..` -/

@[simp] theorem collapse_nil : collapse [] = [] := rfl

theorem collapse_concat (names : List Text) (name : Text) : collapse (names ++ [name]) =
    if name == ['.', '.'] then (collapse names).dropLast else collapse names ++ [name] := by
  rw [collapse, List.foldl_append]
  rfl

theorem collapse_append (ms : List Text) {ns : List Text} (h : ['.', '.'] ∉ ns) :
    collapse (ms ++ ns) = collapse ms ++ ns := by
  induction ns using List.reverseRecOn with
  | nil => simp
  | append_singleton ns name ih =>
    simp only [List.mem_append, List.mem_singleton, not_or] at h
    rw [← List.append_assoc, collapse_concat, if_neg (by simpa using Ne.symm h.2), ih h.1,
      List.append_assoc]

theorem collapse_of_plain {ns : List Text} (h : ['.', '.'] ∉ ns) : collapse ns = ns :=
  collapse_append [] h

theorem collapse_sublist (names : List Text) : (collapse names).Sublist names := by
  induction names using List.reverseRecOn with
  | nil => exact .refl []
  | append_singleton names name ih =>
    rw [collapse_concat]
    split
    · exact (List.dropLast_sublist _).trans (ih.trans (List.sublist_append_left _ _))
    · exact ih.append_right [name]

/-- Every `..` drops a name from the end. -/
theorem collapse_ups {ms : List Text} (h : ['.', '.'] ∉ ms) (n : Nat) :
    collapse (ms ++ List.replicate n ['.', '.']) = ms.take (ms.length - n) := by
  induction n with
  | zero => simp [collapse_of_plain h]
  | succ n ih =>
    rw [List.replicate_succ', ← List.append_assoc, collapse_concat, if_pos BEq.rfl, ih,
      List.dropLast_eq_take, List.take_take, List.length_take]
    congr 1
    omega

end NimMarkdown.Path
