import NimMarkdown.Markdown.Document
import NimMarkdown.Proofs.FenceLines
import NimMarkdown.Proofs.Trim

/-!
# Neat lines

Lines are neat if none of them has a line feed and neither the first nor the last of
them is blank. Chunks that are neat make a neat document, since between two of them
stands an empty line and nothing else. The chunks of an outline are neat as soon as
the texts in it have no line feed (`Outline.Unbroken`): blank lines at the ends of the
top matter, of a comment and of examples are trimmed, and the others stand between
marks. Only the bullets of imports and includes have to be no blanks.
-/

namespace NimMarkdown

/-- The text has no line feed. -/
def Text.Unbroken (t : Text) : Prop := '\n' ∉ t

instance : DecidablePred Text.Unbroken := fun t => inferInstanceAs (Decidable ('\n' ∉ t))

namespace Text.Unbroken

variable {t u : Text}

theorem part (h : t.Unbroken) (hp : u <:+: t) : u.Unbroken := fun hm => h (hp.subset hm)

theorem append (h : t.Unbroken) (h' : u.Unbroken) : Text.Unbroken (t ++ u) := fun hm =>
  (List.mem_append.1 hm).elim h h'

theorem heading (h : t.Unbroken) (level : Nat) : (headingLine level t).Unbroken := by
  have marks : Text.Unbroken (List.replicate level '#') := fun hm =>
    absurd (List.eq_of_mem_replicate hm) (by decide)
  have space : Text.Unbroken [' '] := by decide
  exact marks.append (space.append (h.part (Text.strip_part t)))

end Text.Unbroken

theorem Text.unbroken_toString (n : Int) : Text.Unbroken (toString n).toList := by
  have digits (m : Nat) : Text.Unbroken m.repr.toList := by
    rw [← Nat.toString_eq_repr, Nat.toString_eq_ofList_toDigits, String.toList_ofList]
    intro hm
    exact absurd (Nat.isDigit_of_mem_toDigits (by decide) (by decide) hm) (by decide)
  cases n with
  | ofNat m => exact digits m
  | negSucc m =>
    have minus : Text.Unbroken "-".toList := by decide
    show Text.Unbroken ("-" ++ (m + 1).repr).toList
    rw [String.toList_append]
    exact minus.append (digits (m + 1))

theorem getLast?_dropEndWhile {α : Type} {p : α → Bool} {xs : List α} {x : α}
    (h : (dropEndWhile p xs).getLast? = some x) : p x = false := by
  induction xs with
  | nil => cases h
  | cons y ys ih =>
    rw [dropEndWhile_cons] at h
    split at h
    · cases h
    · next kept =>
      rw [List.getLast?_cons] at h
      cases hl : (dropEndWhile p ys).getLast? with
      | some z =>
        rw [hl] at h
        exact ih (hl.trans h)
      | none =>
        rw [hl] at h
        obtain rfl : y = x := Option.some.inj h
        rw [List.getLast?_eq_none_iff.1 hl] at kept
        simpa using kept

theorem head?_trimBlankLines {lines : List Text} {line : Text}
    (h : (trimBlankLines lines).head? = some line) : line.isBlankText = false := by
  have kept : trimBlankLines lines <+: lines.dropWhile Text.isBlankText :=
    dropEndWhile_isPrefix _ _
  have start := List.head?_dropWhile_not Text.isBlankText lines
  obtain ⟨rest, he⟩ := kept
  rw [← he, List.head?_append, h] at start
  exact start

/-! ## Lists of lines -/

/-- No line has a line feed, and the lines at the ends are not blank. -/
structure Neat (lines : List Text) : Prop where
  unbroken : ∀ line ∈ lines, line.Unbroken
  first : ∀ line ∈ lines.head?, line.isBlankText = false
  last : ∀ line ∈ lines.getLast?, line.isBlankText = false

namespace Neat

variable {lines xs ys : List Text} {line : Text}

theorem nil : Neat [] := ⟨nofun, nofun, nofun⟩

theorem singleton (h : line.Unbroken) (text : line.isBlankText = false) : Neat [line] where
  unbroken := List.forall_mem_singleton.2 h
  first _ hl := Option.some.inj hl ▸ text
  last _ hl := Option.some.inj hl ▸ text

/-- Anything unbroken may stand behind a text that is not blank. -/
theorem singleton_append {t u : Text} (h : t.Unbroken) (text : t.isBlankText = false)
    (h' : u.Unbroken) : Neat [t ++ u] := by
  refine .singleton (h.append h') ?_
  rw [Text.isBlankText, List.all_append, ← Text.isBlankText, text]
  rfl

theorem of_texts (h : ∀ line ∈ lines, line.Unbroken ∧ line.isBlankText = false) : Neat lines where
  unbroken line hl := (h line hl).1
  first line hl := (h line (List.mem_of_head? hl)).2
  last line hl := (h line (List.mem_of_getLast? hl)).2

theorem ite (c : Bool) (h : Neat lines) : Neat (if c then lines else []) := by
  cases c with
  | true => exact h
  | false => exact .nil

theorem append (h : Neat xs) (h' : Neat ys) : Neat (xs ++ ys) where
  unbroken := List.forall_mem_append.2 ⟨h.unbroken, h'.unbroken⟩
  first line hl := by
    rw [List.head?_append] at hl
    exact (Option.or_eq_some_iff.1 hl).elim (h.first line) fun hy => h'.first line hy.2
  last line hl := by
    rw [List.getLast?_append] at hl
    exact (Option.or_eq_some_iff.1 hl).elim (h'.last line) fun hx => h.last line hx.2

/-- Any unbroken lines may stand between two neat lists that are not empty. -/
theorem around {inner : List Text} (h : Neat xs) (hx : xs ≠ [])
    (unbroken : ∀ line ∈ inner, line.Unbroken) (h' : Neat ys) (hy : ys ≠ []) :
    Neat (xs ++ inner ++ ys) where
  unbroken :=
    List.forall_mem_append.2 ⟨List.forall_mem_append.2 ⟨h.unbroken, unbroken⟩, h'.unbroken⟩
  first line hl := by
    rw [List.append_assoc, List.head?_append_of_ne_nil xs hx] at hl
    exact h.first line hl
  last line hl := by
    rw [List.getLast?_append_of_ne_nil _ hy] at hl
    exact h'.last line hl

/-- A code block may have any unbroken lines. -/
theorem block (h : ∀ line ∈ lines, line.Unbroken) : Neat (sourceFence :: lines ++ [fenceMark]) :=
  have opening : Neat [sourceFence] := .singleton (by decide) (by decide)
  have closing : Neat [fenceMark] := .singleton (by decide) (by decide)
  opening.around (List.cons_ne_nil _ _) h closing (List.cons_ne_nil _ _)

/-- With an empty line between them, which is at no end. -/
theorem spaced (h : Neat xs) (hx : xs ≠ []) (h' : Neat ys) (hy : ys ≠ []) :
    Neat (xs ++ [] :: ys) := by
  have gap : ∀ line ∈ ([[]] : List Text), line.Unbroken := by decide
  have both := h.around hx gap h' hy
  rwa [List.append_assoc] at both

theorem appendChunk (h : Neat xs) (h' : Neat ys) : Neat (appendChunk xs ys) := by
  unfold NimMarkdown.appendChunk
  split
  · exact h
  · next hy =>
    split
    · exact h'
    · next hx => exact h.spaced (by simpa using hx) h' (by simpa using hy)

theorem chunks {chunks : List (List Text)} (h : ∀ chunk ∈ chunks, Neat chunk) (hl : Neat lines) :
    Neat (chunks.foldl NimMarkdown.appendChunk lines) := by
  induction chunks generalizing lines with
  | nil => exact hl
  | cons chunk rest ih =>
    exact ih (fun c hc => h c (List.mem_cons_of_mem _ hc))
      (hl.appendChunk (h chunk List.mem_cons_self))

theorem trim (h : ∀ line ∈ lines, line.Unbroken) : Neat (trimBlankLines lines) where
  unbroken line hl := h line (mem_of_mem_trimBlankLines hl)
  first _ hl := head?_trimBlankLines hl
  last _ hl := getLast?_dropEndWhile hl

end Neat

/-! ## The document of an outline -/

/-- The texts of a declaration have no line feed. -/
structure Declaration.Unbroken (d : Declaration) : Prop where
  heading : ∀ t ∈ d.heading, t.Unbroken
  code : ∀ t ∈ d.code, t.Unbroken
  comment : ∀ t ∈ d.comment, t.Unbroken
  examples : ∀ t ∈ d.examples, t.Unbroken

/-- The texts of an outline have no line feed, and its bullets are no blanks. -/
structure Outline.Unbroken (o : Outline) : Prop where
  topMatter : ∀ t ∈ o.topMatter, t.Unbroken
  imports : ∀ t ∈ o.imports, t.Unbroken ∧ t.isBlankText = false
  includes : ∀ t ∈ o.includes, t.Unbroken ∧ t.isBlankText = false
  declarations : ∀ d ∈ o.declarations, d.Unbroken

variable {on : Toggle → Bool}

namespace Declaration.Unbroken

variable {d : Declaration}

theorem renderCode (h : d.Unbroken) : Neat (d.renderCode on) := by
  unfold Declaration.renderCode
  split
  · exact .nil
  · next text hh =>
    rw [List.append_assoc (ite _ _ _)]
    refine .append (.append (.ite _ ?_) (.block h.code)) (.ite _ ?_)
    · exact .singleton_append (by decide) (by decide) (h.heading text hh)
    · rw [String.toList_append]
      exact .singleton_append (by decide) (by decide) (Text.unbroken_toString _)

theorem render (h : d.Unbroken) : Neat (d.render on) := by
  have comment := Neat.trim h.comment
  have block (number : Bool) : Neat (d.renderCode on ++
      (if !(trimBlankLines d.comment).isEmpty && d.heading.isSome && number then [[]] else []) ++
      trimBlankLines d.comment) := by
    split
    · next gap =>
      simp only [Bool.and_eq_true, Bool.not_eq_true', List.isEmpty_eq_false_iff] at gap
      have code : d.renderCode on ≠ [] := by
        obtain ⟨text, hh⟩ := Option.isSome_iff_exists.1 gap.1.2
        simp [Declaration.renderCode, hh]
      rw [List.append_assoc]
      exact h.renderCode.spaced code comment gap.1.1
    · rw [List.append_nil]
      exact h.renderCode.append comment
  simp only [Declaration.render]
  split
  · have label : Neat ["**Example:**".toList] := .singleton (by decide) (by decide)
    have inner := Neat.block fun t ht => h.examples t (mem_of_mem_trimBlankLines ht)
    exact (block _).appendChunk (label.spaced (List.cons_ne_nil _ _) inner (List.cons_ne_nil _ _))
  · exact block _

end Declaration.Unbroken

namespace Outline.Unbroken

variable {o : Outline}

theorem bulletChunk {heading : String} {bullets : List Text} (h : Neat [heading.toList])
    (h' : Neat bullets) : Neat (bulletChunk heading bullets) := by
  unfold Outline.bulletChunk
  split
  · exact .nil
  · next hb => exact h.spaced (List.cons_ne_nil _ _) h' (by simpa using hb)

theorem categoryChunks (h : o.Unbroken) (c : Category) :
    ∀ chunk ∈ o.categoryChunks on c, Neat chunk := by
  have title : Text.Unbroken c.title.toList := by
    cases c with
    | routine kind => cases kind <;> decide
    | _ => decide
  intro chunk hc
  rcases List.mem_append.1 hc with hc | hc
  · split at hc
    · rw [List.mem_singleton.1 hc, String.toList_append]
      exact .singleton_append (by decide) (by decide) title
    · cases hc
  · obtain ⟨d, hd, rfl⟩ := List.mem_map.1 hc
    exact (h.declarations d (List.mem_filter.1 hd).1).render

/-- The document of an outline is neat. -/
theorem render (h : o.Unbroken) : Neat (o.render on).lines := by
  refine Neat.chunks (fun chunk hc => ?_) .nil
  simp only [Outline.chunks, List.cons_append, List.append_assoc, List.mem_cons, List.mem_append,
    List.mem_flatMap] at hc
  rcases hc with rfl | hc | hc | ⟨c, -, hc⟩
  · exact .trim h.topMatter
  · split at hc
    · simp only [List.mem_cons, List.not_mem_nil, or_false] at hc
      rcases hc with rfl | rfl
      · exact bulletChunk (.singleton (by decide) (by decide)) (.of_texts h.imports)
      · exact bulletChunk (.singleton (by decide) (by decide)) (.of_texts h.includes)
    · cases hc
  · split at hc
    · rw [List.mem_singleton.1 hc]
      exact .singleton (by decide) (by decide)
    · cases hc
  · exact h.categoryChunks c chunk hc

end Outline.Unbroken

end NimMarkdown
