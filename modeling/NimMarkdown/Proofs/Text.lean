import Mathlib.Data.List.TakeWhile
import NimMarkdown.Line.Comment
import NimMarkdown.Text.Lines

/-!
# Parts of a text

Trimming, reading a comment and splitting a line all return parts of the text
they are given: what they return stands in it as it is. What never occurs in a
text does not occur in these parts either. A part that a reader takes as a run ends
at the boundary behind it (`run_append`), or at a mark (`Text.split_at_mark`).
-/

namespace NimMarkdown

theorem dropEndWhile_isPrefix {α : Type} (p : α → Bool) (xs : List α) :
    dropEndWhile p xs <+: xs := by
  induction xs with
  | nil => exact List.prefix_rfl
  | cons x xs ih =>
    rw [dropEndWhile_cons]
    split
    · exact List.nil_prefix
    · exact (List.prefix_cons_inj x).2 ih

/-- The run that a list begins with ends where the list does not go on with it. -/
theorem run_append {α : Type} {p : α → Bool} {run rest : List α} (h : ∀ x ∈ run, p x = true)
    (ends : ∀ x ∈ rest.head?, p x = false) :
    (run ++ rest).takeWhile p = run ∧ (run ++ rest).dropWhile p = rest := by
  rw [List.takeWhile_append_of_pos h, List.dropWhile_append_of_pos h]
  cases rest with
  | nil => simp
  | cons x rest => simp [ends x rfl]

/-- What is found in a table stands in it. -/
theorem mem_of_lookup {α β : Type} [BEq α] [LawfulBEq α] {entries : List (α × β)} {k : α} {v : β}
    (h : entries.lookup k = some v) : (k, v) ∈ entries := by
  obtain ⟨before, behind, split, -⟩ := List.lookup_eq_some_iff.1 h
  rw [split]
  exact List.mem_append_right before List.mem_cons_self

namespace Text

variable {t sep before after : Text} {mark : Char}

theorem bne_of_not_mem (h : mark ∉ t) : ∀ c ∈ t, (c != mark) = true := fun _ hc =>
  bne_iff_ne.2 fun he => h (he ▸ hc)

theorem takeWhile_of_not_mem (h : mark ∉ t) : t.takeWhile (· != mark) = t :=
  List.takeWhile_eq_self_iff.2 (bne_of_not_mem h)

/-- A text is read up to its first mark. -/
theorem append_mark (h : mark ∉ before) (rest : Text) :
    (before ++ mark :: rest).takeWhile (· != mark) = before ∧
      (before ++ mark :: rest).dropWhile (· != mark) = mark :: rest :=
  run_append (bne_of_not_mem h) fun c hc => by
    rw [← Option.mem_some.1 hc]
    exact bne_self_eq_false mark

theorem split_at_mark {c : Char} {rest : Text} (h : t.dropWhile (· != mark) = c :: rest) :
    t = t.takeWhile (· != mark) ++ mark :: rest ∧ mark ∉ t.takeWhile (· != mark) := by
  have found : c = mark := by simpa [h] using List.head?_dropWhile_not (· != mark) t
  constructor
  · rw [← found, ← h, found, List.takeWhile_append_dropWhile]
  · intro hm
    simpa using List.mem_takeWhile_imp hm

theorem stripLeft_suffix (t : Text) : t.stripLeft <:+ t := List.dropWhile_suffix _

theorem stripRight_isPrefix (t : Text) : t.stripRight <+: t := dropEndWhile_isPrefix _ t

theorem stripRight_part (t : Text) : t.stripRight <:+: t := (stripRight_isPrefix t).isInfix

theorem strip_part (t : Text) : t.strip <:+: t :=
  (stripRight_part _).trans (stripLeft_suffix t).isInfix

theorem dropSpace_suffix (t : Text) : t.dropSpace <:+ t := by
  unfold dropSpace
  split
  · exact List.suffix_cons _ _
  · exact List.suffix_rfl

theorem hasPart_iff {part : Text} : hasPart part t = true ↔ part <:+: t := by
  induction t with
  | nil => simp [hasPart]
  | cons c r ih =>
    simp only [hasPart, Bool.or_eq_true, ih, startsWith, List.isPrefixOf_iff_prefix,
      List.infix_cons_iff]

/-- A cut at a separator gives back the text. -/
theorem cutAt_eq (h : cutAt sep t = some (before, after)) : t = before ++ sep ++ after := by
  induction t generalizing before with
  | nil =>
    simp only [cutAt] at h
    split at h
    · next hs => simp_all
    · simp at h
  | cons c r ih =>
    simp only [cutAt] at h
    split at h
    · next hs =>
      obtain ⟨rest, hr⟩ := List.isPrefixOf_iff_prefix.1 hs
      simp only [Option.some.injEq, Prod.mk.injEq] at h
      rw [← h.1, ← h.2, ← hr]
      simp
    · obtain ⟨⟨b, a⟩, he, h⟩ := Option.map_eq_some_iff.1 h
      simp only [Prod.mk.injEq] at h
      obtain ⟨rfl, rfl⟩ := h
      rw [ih he]
      simp

theorem cutAt_eq_none_iff : cutAt sep t = none ↔ ¬ sep <:+: t := by
  induction t with
  | nil => simp [cutAt]
  | cons c r ih =>
    rw [cutAt, List.infix_cons_iff, ← List.isPrefixOf_iff_prefix]
    split
    · next h => simp [show sep.isPrefixOf (c :: r) = true from h]
    · next h =>
      rw [Option.map_eq_none_iff, ih]
      simpa [startsWith] using fun _ => h

/-- The first line begins a text, and every line is a part of it. -/
theorem splitLines_spec (t : Text) : ∃ first rest, splitLines t = first :: rest ∧ first <+: t ∧
    ∀ line ∈ rest, line <:+: t := by
  induction t with
  | nil => exact ⟨[], [], rfl, List.prefix_rfl, nofun⟩
  | cons c t ih =>
    obtain ⟨first, rest, he, hf, hr⟩ := ih
    have longer : t <:+: c :: t := (List.suffix_cons c t).isInfix
    by_cases hc : c = '\n'
    · refine ⟨[], first :: rest, ?_, List.nil_prefix, fun line hl => ?_⟩
      · unfold splitLines at he ⊢
        rw [List.foldr_cons, if_pos hc, he]
      · rcases List.mem_cons.1 hl with rfl | hl
        · exact hf.isInfix.trans longer
        · exact (hr line hl).trans longer
    · refine ⟨c :: first, rest, ?_, (List.prefix_cons_inj c).2 hf, fun line hl =>
        (hr line hl).trans longer⟩
      unfold splitLines at he ⊢
      rw [List.foldr_cons, if_neg hc, he]

theorem splitLines_part {line : Text} (h : line ∈ splitLines t) : line <:+: t := by
  obtain ⟨first, rest, he, hf, hr⟩ := splitLines_spec t
  rcases List.mem_cons.1 (he ▸ h) with rfl | h
  · exact hf.isInfix
  · exact hr line h

theorem lineFeed_not_mem_splitLines (t : Text) : ∀ line ∈ splitLines t, '\n' ∉ line := by
  induction t with
  | nil => simp [splitLines]
  | cons c t ih =>
    unfold splitLines at ih ⊢
    simp only [List.foldr_cons]
    split
    · intro line hl
      rcases List.mem_cons.1 hl with rfl | hl
      · exact List.not_mem_nil
      · exact ih line hl
    · next hc =>
      split
      · simpa using Ne.symm hc
      · next first rest he =>
        rw [he] at ih
        intro line hl
        rcases List.mem_cons.1 hl with rfl | hl
        · have hf := ih first List.mem_cons_self
          simpa [hf] using Ne.symm hc
        · exact ih line (List.mem_cons_of_mem _ hl)

theorem splitLines_of_line {line : Text} (h : '\n' ∉ line) : splitLines line = [line] := by
  induction line with
  | nil => rfl
  | cons c rest ih =>
    have hc : c ≠ '\n' := fun hc => h (hc ▸ List.mem_cons_self)
    have hr := ih fun hm => h (List.mem_cons_of_mem _ hm)
    unfold splitLines at hr ⊢
    rw [List.foldr_cons, hr, if_neg hc]

theorem splitLines_append {line : Text} (h : '\n' ∉ line) (rest : Text) :
    splitLines (line ++ '\n' :: rest) = line :: splitLines rest := by
  induction line with
  | nil => rfl
  | cons c more ih =>
    have hc : c ≠ '\n' := fun hc => h (hc ▸ List.mem_cons_self)
    have hr := ih fun hm => h (List.mem_cons_of_mem _ hm)
    unfold splitLines at hr ⊢
    rw [List.cons_append, List.foldr_cons, hr, if_neg hc]

/-- Lines that are put together are read back. -/
theorem splitLines_joinLines {ls : List Text} (hn : ls ≠ []) (h : ∀ line ∈ ls, '\n' ∉ line) :
    splitLines (joinLines ls) = ls := by
  match ls with
  | [] => exact absurd rfl hn
  | [line] =>
    simpa [joinLines] using splitLines_of_line (h line List.mem_cons_self)
  | line :: next :: rest =>
    have hr := splitLines_joinLines (List.cons_ne_nil next rest) fun l hl =>
      h l (List.mem_cons_of_mem _ hl)
    have hj : joinLines (line :: next :: rest) = line ++ '\n' :: joinLines (next :: rest) := by
      simp [joinLines, List.intercalate_cons_cons]
    rw [hj, splitLines_append (h line List.mem_cons_self), hr]

end Text

namespace Line

theorem docText_part (line : Text) : docText line <:+: line :=
  ((Text.dropSpace_suffix _).trans
    ((List.drop_suffix _ _).trans (Text.stripLeft_suffix line))).isInfix

theorem commentText_part (line : Text) : commentText line <:+: line :=
  (Text.strip_part _).trans ((List.dropWhile_suffix _).trans (Text.stripLeft_suffix line)).isInfix

theorem splitInlineDoc_part {line code doc : Text} (h : splitInlineDoc line = some (code, doc)) :
    code <:+: line ∧ doc <:+: line := by
  unfold splitInlineDoc at h
  split at h
  · simp at h
  · next before after hc =>
    split at h
    · simp at h
    · simp only [Option.some.injEq, Prod.mk.injEq] at h
      have he := Text.cutAt_eq hc
      constructor
      · rw [← h.1, he, List.append_assoc]
        exact (Text.stripRight_isPrefix before).isInfix.trans (List.prefix_append _ _).isInfix
      · rw [← h.2, he]
        exact ((Text.dropSpace_suffix after).trans (List.suffix_append _ _)).isInfix

end Line

end NimMarkdown
