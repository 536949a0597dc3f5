import NimMarkdown.Markdown.Document

/-!
# Fence lines

A fence line begins with the fence mark. `FencesAlternate` says that the fence
lines of a text open and close a code block in turn. `readFences` reads lines and
knows whether a code block is open; it refuses a fence line out of turn. Lines
that it reads from outside of a block to outside of a block (`Balanced`)
alternate, and so do lines put together from such parts. `render_balanced` puts
the document of an outline together.
-/

namespace NimMarkdown

/-- The line opens or closes a code block. -/
def isFenceLine (line : Text) : Bool := Text.startsWith fenceMark line

def fenceLines (lines : List Text) : List Text := lines.filter isFenceLine

/-- The fence lines open and close a code block in turn, and none is left open. -/
structure FencesAlternate (lines : List Text) : Prop where
  even : (fenceLines lines).length % 2 = 0
  opener : ∀ i line, (fenceLines lines)[i]? = some line → i % 2 = 0 →
    line = fenceMark ∨ line = sourceFence
  closer : ∀ i line, (fenceLines lines)[i]? = some line → i % 2 = 1 → line = fenceMark

/-- Whether a code block is open behind the lines, or `none` at a fence line out of turn. -/
def readFences : (isOpen : Bool) → List Text → Option Bool
  | isOpen, [] => some isOpen
  | isOpen, line :: rest =>
    if isFenceLine line then
      if line = fenceMark ∨ (isOpen = false ∧ line = sourceFence) then readFences (!isOpen) rest
      else none
    else readFences isOpen rest

/-- No code block is open before and behind the lines. -/
def Balanced (lines : List Text) : Prop := readFences false lines = some false

variable {lines xs ys : List Text} {line : Text} {isOpen : Bool}

theorem readFences_append (isOpen : Bool) (xs ys : List Text) :
    readFences isOpen (xs ++ ys) = (readFences isOpen xs).bind fun b => readFences b ys := by
  induction xs generalizing isOpen with
  | nil => rfl
  | cons x xs ih =>
    simp only [List.cons_append, readFences]
    split
    · split
      · exact ih _
      · rfl
    · exact ih _

theorem readFences_plain (h : ∀ l ∈ lines, isFenceLine l = false) :
    readFences isOpen lines = some isOpen := by
  induction lines with
  | nil => rfl
  | cons l ls ih =>
    rw [readFences, h l List.mem_cons_self]
    exact ih fun l' hl => h l' (List.mem_cons_of_mem _ hl)

theorem readFences_append_plain (h : ∀ l ∈ ys, isFenceLine l = false) :
    readFences isOpen (xs ++ ys) = readFences isOpen xs := by
  rw [readFences_append]
  cases readFences isOpen xs with
  | none => rfl
  | some b => exact readFences_plain h

theorem readFences_turn {b : Bool} (h : readFences isOpen lines = some b) (i : Nat) (line : Text)
    (hi : (fenceLines lines)[i]? = some line) :
    line = fenceMark ∨ ((i + isOpen.toNat) % 2 = 0 ∧ line = sourceFence) := by
  induction lines generalizing isOpen i with
  | nil => simp [fenceLines] at hi
  | cons l ls ih =>
    rw [readFences] at h
    split at h
    · next hl =>
      split at h
      · next ht =>
        rw [fenceLines, List.filter_cons_of_pos hl] at hi
        cases i with
        | zero =>
          simp only [List.getElem?_cons_zero, Option.some.injEq] at hi
          rcases ht with ht | ⟨hopen, ht⟩
          · exact .inl (hi ▸ ht)
          · exact .inr ⟨by simp [hopen], hi ▸ ht⟩
        | succ i =>
          rw [List.getElem?_cons_succ] at hi
          refine (ih h i hi).imp_right fun ⟨hp, he⟩ => ⟨?_, he⟩
          cases isOpen <;> simp at hp ⊢ <;> omega
      · cases h
    · next hl =>
      rw [fenceLines, List.filter_cons_of_neg (by simpa using hl)] at hi
      exact ih h i hi

theorem readFences_parity {b : Bool} (h : readFences isOpen lines = some b) :
    ((fenceLines lines).length + isOpen.toNat) % 2 = b.toNat := by
  induction lines generalizing isOpen with
  | nil =>
    cases h
    cases b <;> rfl
  | cons l ls ih =>
    rw [readFences] at h
    split at h
    · next hl =>
      split at h
      · have := ih h
        rw [fenceLines, List.filter_cons_of_pos hl, List.length_cons]
        rw [fenceLines] at this
        cases isOpen <;> simp at this ⊢ <;> omega
      · cases h
    · next hl =>
      rw [fenceLines, List.filter_cons_of_neg (by simpa using hl)]
      exact ih h

theorem Balanced.alternate (h : Balanced lines) : FencesAlternate lines where
  even := by simpa using readFences_parity h
  opener i line hi _ := (readFences_turn h i line hi).imp_right fun ht => ht.2
  closer i line hi ho := by
    rcases readFences_turn h i line hi with ht | ⟨he, -⟩
    · exact ht
    · simp at he
      omega

theorem Balanced.append (hx : Balanced xs) (hy : Balanced ys) : Balanced (xs ++ ys) := by
  rw [Balanced, readFences_append, hx]
  exact hy

theorem balanced_plain (h : ∀ l ∈ lines, isFenceLine l = false) : Balanced lines :=
  readFences_plain h

/-! ## Lines that are no fence lines -/

theorem isFenceLine_cons {c : Char} (h : c ≠ '\x60') (rest : Text) :
    isFenceLine (c :: rest) = false := by
  simp [isFenceLine, Text.startsWith, fenceMark, List.isPrefixOf, Ne.symm h]

theorem isFenceLine_of_blank (h : line.isBlankText = true) : isFenceLine line = false := by
  cases line with
  | nil => rfl
  | cons c rest =>
    refine isFenceLine_cons ?_ rest
    rintro rfl
    simp [Text.isBlankText, isBlank] at h

theorem isFenceLine_mark : isFenceLine fenceMark = true := by decide

theorem isFenceLine_source : isFenceLine sourceFence = true := by decide

/-! ## The document of an outline -/

/-- What is between two fences does not matter, as long as it has no fence line. -/
theorem balanced_block (h : ∀ l ∈ lines, isFenceLine l = false) :
    Balanced (sourceFence :: lines ++ [fenceMark]) := by
  have hs : readFences false (sourceFence :: lines) = readFences true lines := by
    simp [readFences, isFenceLine_source]
  rw [Balanced, readFences_append, hs, readFences_plain h]
  simp [readFences, isFenceLine_mark]

theorem dropEndWhile_append {α : Type} (p : α → Bool) (xs : List α) :
    ∃ rest, xs = dropEndWhile p xs ++ rest ∧ ∀ x ∈ rest, p x = true := by
  induction xs with
  | nil => exact ⟨[], rfl, nofun⟩
  | cons x xs ih =>
    obtain ⟨rest, he, hr⟩ := ih
    rw [dropEndWhile_cons]
    split
    · next h =>
      simp only [Bool.and_eq_true, List.isEmpty_iff] at h
      rw [h.1, List.nil_append] at he
      refine ⟨x :: xs, rfl, fun y hy => ?_⟩
      rcases List.mem_cons.1 hy with rfl | hy
      · exact h.2
      · exact hr y (he ▸ hy)
    · exact ⟨rest, by rw [List.cons_append, ← he], hr⟩

theorem mem_of_mem_trimBlankLines (h : line ∈ trimBlankLines lines) : line ∈ lines := by
  obtain ⟨rest, he, -⟩ := dropEndWhile_append Text.isBlankText (lines.dropWhile Text.isBlankText)
  refine (List.dropWhile_suffix Text.isBlankText).mem ?_
  rw [he]
  exact List.mem_append_left rest h

/-- Blank lines at the ends may be left out. -/
theorem readFences_trim (isOpen : Bool) (lines : List Text) :
    readFences isOpen (trimBlankLines lines) = readFences isOpen lines := by
  have hstart : readFences isOpen (lines.dropWhile Text.isBlankText) = readFences isOpen lines := by
    induction lines with
    | nil => rfl
    | cons l ls ih =>
      cases hb : Text.isBlankText l with
      | false => rw [List.dropWhile_cons_of_neg (by simp [hb])]
      | true =>
        rw [List.dropWhile_cons_of_pos hb, ih, readFences, isFenceLine_of_blank hb]
        rfl
  obtain ⟨rest, he, hr⟩ := dropEndWhile_append Text.isBlankText (lines.dropWhile Text.isBlankText)
  calc readFences isOpen (trimBlankLines lines)
      = readFences isOpen (trimBlankLines lines ++ rest) :=
        (readFences_append_plain fun l hl => isFenceLine_of_blank (hr l hl)).symm
    _ = readFences isOpen (lines.dropWhile Text.isBlankText) := by rw [trimBlankLines, ← he]
    _ = readFences isOpen lines := hstart

theorem Balanced.trim (h : Balanced lines) : Balanced (trimBlankLines lines) := by
  rw [Balanced, readFences_trim]
  exact h

theorem Balanced.appendChunk (hx : Balanced xs) (hy : Balanced ys) :
    Balanced (appendChunk xs ys) := by
  unfold NimMarkdown.appendChunk
  split
  · exact hx
  · split
    · exact hy
    · refine hx.append ?_
      rw [Balanced, readFences]
      exact hy

/-- The code blocks of a declaration are closed, and it has no other fence lines. -/
structure Declaration.Fenced (d : Declaration) : Prop where
  comment : Balanced d.comment
  code : ∀ l ∈ d.code, isFenceLine l = false
  examples : ∀ l ∈ d.examples, isFenceLine l = false

theorem Declaration.Fenced.renderCode {d : Declaration} (h : d.Fenced) (on : Toggle → Bool) :
    Balanced (d.renderCode on) := by
  unfold Declaration.renderCode
  split
  · rfl
  · refine Balanced.append ?_ (balanced_plain ?_)
    · rw [List.append_assoc]
      refine (balanced_plain ?_).append (balanced_block h.code)
      intro l hl
      split at hl
      · rw [List.mem_singleton.1 hl]
        exact isFenceLine_cons (by decide) _
      · cases hl
    · intro l hl
      split at hl
      · rw [List.mem_singleton.1 hl, String.toList_append]
        exact isFenceLine_cons (by decide) _
      · cases hl

theorem Declaration.Fenced.render {d : Declaration} (h : d.Fenced) (on : Toggle → Bool) :
    Balanced (d.render on) := by
  have block : ∀ gap : List Text, (∀ l ∈ gap, isFenceLine l = false) →
      Balanced (d.renderCode on ++ gap ++ trimBlankLines d.comment) := fun gap hg =>
    ((h.renderCode on).append (balanced_plain hg)).append h.comment.trim
  have gap : ∀ c : Bool, ∀ l ∈ (if c then [[]] else [] : List Text), isFenceLine l = false := by
    intro c l hl
    cases c with
    | false => cases hl
    | true => rw [List.mem_singleton.1 hl]; rfl
  have examples : ∀ l ∈ trimBlankLines d.examples, isFenceLine l = false := fun l hl =>
    h.examples l (mem_of_mem_trimBlankLines hl)
  simp only [Declaration.render]
  split
  · refine (block _ (gap _)).appendChunk ?_
    have label : ∀ l ∈ ["**Example:**".toList, []], isFenceLine l = false := by decide
    exact (balanced_plain label).append (balanced_block examples)
  · exact block _ (gap _)

/-- The code blocks of an outline are closed, and it has no other fence lines. -/
structure Outline.Fenced (o : Outline) : Prop where
  topMatter : Balanced o.topMatter
  bullets : ∀ l ∈ o.imports ++ o.includes, isFenceLine l = false
  declarations : ∀ d ∈ o.declarations, d.Fenced

theorem balanced_chunks {chunks : List (List Text)} (h : ∀ c ∈ chunks, Balanced c)
    (hl : Balanced lines) : Balanced (chunks.foldl appendChunk lines) := by
  induction chunks generalizing lines with
  | nil => exact hl
  | cons c cs ih =>
    exact ih (fun c' hc => h c' (List.mem_cons_of_mem _ hc))
      (hl.appendChunk (h c List.mem_cons_self))

theorem balanced_bulletChunk {heading : String} {bullets : List Text}
    (hh : isFenceLine heading.toList = false) (h : ∀ l ∈ bullets, isFenceLine l = false) :
    Balanced (Outline.bulletChunk heading bullets) := by
  unfold Outline.bulletChunk
  split
  · rfl
  · refine balanced_plain fun l hl => ?_
    rcases List.mem_cons.1 hl with rfl | hl
    · exact hh
    · rcases List.mem_cons.1 hl with rfl | hl
      · rfl
      · exact h l hl

theorem Outline.Fenced.categoryChunks {o : Outline} (h : o.Fenced) (on : Toggle → Bool)
    (c : Category) : ∀ chunk ∈ o.categoryChunks on c, Balanced chunk := by
  intro chunk hc
  unfold Outline.categoryChunks at hc
  rcases List.mem_append.1 hc with hc | hc
  · split at hc
    · rw [List.mem_singleton.1 hc]
      refine balanced_plain fun l hl => ?_
      rw [List.mem_singleton.1 hl, String.toList_append]
      exact isFenceLine_cons (by decide) _
    · cases hc
  · obtain ⟨d, hd, rfl⟩ := List.mem_map.1 hc
    exact (h.declarations d (List.mem_filter.1 hd).1).render on

/-- The code blocks of the document are those of the outline and of its declarations. -/
theorem render_balanced {o : Outline} (h : o.Fenced) (on : Toggle → Bool) :
    Balanced (o.render on).lines := by
  refine balanced_chunks (fun chunk hc => ?_) rfl
  have bullets := h.bullets
  simp only [List.mem_append] at bullets
  simp only [Outline.chunks, List.cons_append, List.append_assoc, List.mem_cons, List.mem_append,
    List.mem_flatMap] at hc
  rcases hc with rfl | hc | hc | ⟨c, -, hc⟩
  · exact h.topMatter.trim
  · split at hc
    · simp only [List.mem_cons, List.not_mem_nil, or_false] at hc
      rcases hc with rfl | rfl
      · exact balanced_bulletChunk (by decide) fun l hl => bullets l (.inl hl)
      · exact balanced_bulletChunk (by decide) fun l hl => bullets l (.inr hl)
    · cases hc
  · split at hc
    · rw [List.mem_singleton.1 hc]
      exact balanced_plain (by decide)
    · cases hc
  · exact h.categoryChunks on c chunk hc

end NimMarkdown
