import Mathlib.Data.List.Chain
import NimMarkdown.Proofs.DocItems
import NimMarkdown.Proofs.Faithful
import NimMarkdown.Proofs.Fences

/-!
# The bodies of code blocks

`readBlocks` takes lines apart into the bodies that stand between an opening and a
closing fence. A body is built from doc texts one at a time (`BlockBody`): the first
fixes the width that is taken from the others, and a blank line stands only between
two of them. So a body is clean (`BlockBody.codeBlock`), whichever lines of the source
it comes from.
-/

namespace NimMarkdown

/-- The bodies of the code blocks that the lines close, and the body of the one that is open behind
them; `body` is what has been read of a block that is open before. -/
def readBlocks : (body : Option (List Text)) → List Text → List (List Text) × Option (List Text)
  | body, [] => ([], body)
  | none, line :: rest =>
    if isFenceLine line then readBlocks (some []) rest else readBlocks none rest
  | some body, line :: rest =>
    if isFenceLine line then (body :: (readBlocks none rest).1, (readBlocks none rest).2)
    else readBlocks (some (body ++ [line])) rest

/-- The bodies of the code blocks of a text. -/
def codeBlocks (lines : List Text) : List (List Text) := (readBlocks none lines).1

/-- The text is that of a doc line of the source, and goes on with a code block. -/
def BodyText (ls : List Text) (n : Nat) (text : Text) : Prop :=
  ∃ line, lineAt ls n = some line ∧ Line.isDoc line = true ∧ text = Line.docText line ∧
    isBody text = true

/-- The line is the text without the blanks at its end, and without as many blanks at its start as
the width says, or all of them if there are fewer. -/
def Dedented (width : Nat) (text line : Text) : Prop :=
  ∃ blanks : Text, blanks.isBlankText = true ∧ blanks.length = min width text.indent ∧
    text.stripRight = blanks ++ line

/-- What is between the fences of a code block, with the numbers of the source lines that it is made
of. A blank line in it stands alone between two others; these are the doc texts of the source
lines, in their order, without the indent of the first of them. -/
structure CodeBlock (ls : List Text) (numbers : List Nat) (body : List Text) : Prop where
  first : ∀ line ∈ body.head?, line.isBlankText = false
  last : ∀ line ∈ body.getLast?, line.isBlankText = false
  single : body.IsChain fun line next => line.isBlankText = false ∨ next.isBlankText = false
  empty : ∀ line ∈ body, line.isBlankText = true → line = []
  texts : ∃ texts : List Text, List.Forall₂ (BodyText ls) numbers texts ∧
    List.Forall₂ (Dedented ((texts.head?.map Text.indent).getD 0)) texts
      (body.filter fun line => !line.isBlankText)

/-! ## Reading blocks -/

section

variable {body : Option (List Text)} {block : List Text} {xs ys lines : List Text} {line : Text}

theorem readBlocks_append (body : Option (List Text)) (xs ys : List Text) :
    readBlocks body (xs ++ ys) =
      ((readBlocks body xs).1 ++ (readBlocks (readBlocks body xs).2 ys).1,
        (readBlocks (readBlocks body xs).2 ys).2) := by
  induction xs generalizing body with
  | nil => rfl
  | cons x xs ih =>
    cases body with
    | none =>
      simp only [List.cons_append, readBlocks]
      split
      · exact ih _
      · exact ih _
    | some block =>
      simp only [List.cons_append, readBlocks]
      split
      · rw [ih]
        rfl
      · exact ih _

/-- Outside of a block, lines that are no fence lines do not matter. -/
theorem readBlocks_plain (h : ∀ l ∈ lines, isFenceLine l = false) :
    readBlocks none lines = ([], none) := by
  induction lines with
  | nil => rfl
  | cons l ls ih =>
    rw [readBlocks, h l List.mem_cons_self]
    exact ih fun l' hl => h l' (List.mem_cons_of_mem _ hl)

/-- Inside of a block they are its body. -/
theorem readBlocks_body (h : ∀ l ∈ lines, isFenceLine l = false) :
    readBlocks (some block) lines = ([], some (block ++ lines)) := by
  induction lines generalizing block with
  | nil => rw [List.append_nil]; rfl
  | cons l ls ih =>
    rw [readBlocks, h l List.mem_cons_self]
    refine (ih fun l' hl => h l' (List.mem_cons_of_mem _ hl)).trans ?_
    rw [List.append_assoc, List.singleton_append]

/-- A line that is no fence line may take the place of another behind a block. -/
theorem readBlocks_swap {other : Text} (hl : isFenceLine line = false)
    (ho : isFenceLine other = false) (closed : (readBlocks none (xs ++ [line])).2 = none) :
    readBlocks none (xs ++ [other]) = readBlocks none (xs ++ [line]) := by
  rw [readBlocks_append] at closed
  rw [readBlocks_append, readBlocks_append]
  cases h : (readBlocks none xs).2 with
  | none => rw [readBlocks_plain (plain_singleton hl), readBlocks_plain (plain_singleton ho)]
  | some block =>
    rw [h, readBlocks_body (plain_singleton hl)] at closed
    cases closed

/-- Whether a block is open is what the fence lines say. -/
theorem readBlocks_isSome {isOpen : Bool} (h : readFences body.isSome lines = some isOpen) :
    (readBlocks body lines).2.isSome = isOpen := by
  induction lines generalizing body with
  | nil => exact Option.some.inj h
  | cons l ls ih =>
    rw [readFences] at h
    cases hl : isFenceLine l with
    | true =>
      simp only [hl, if_true, Option.ite_none_right_eq_some] at h
      cases body with
      | none =>
        rw [readBlocks, if_pos hl]
        exact ih h.2
      | some block =>
        rw [readBlocks, if_pos hl]
        exact @ih none h.2
    | false =>
      simp only [hl, Bool.false_eq_true, if_false] at h
      cases body with
      | none =>
        rw [readBlocks, if_neg (by simp [hl])]
        exact ih h
      | some block =>
        rw [readBlocks, if_neg (by simp [hl])]
        exact ih h

theorem Balanced.readBlocks (h : Balanced lines) :
    readBlocks none lines = (codeBlocks lines, none) :=
  Prod.ext rfl (Option.not_isSome_iff_eq_none.1 (by simp [@readBlocks_isSome none _ _ h]))

/-- The code blocks of balanced parts are those of the whole. -/
theorem codeBlocks_append (h : Balanced xs) :
    codeBlocks (xs ++ ys) = codeBlocks xs ++ codeBlocks ys := by
  rw [codeBlocks, readBlocks_append, h.readBlocks]
  rfl

theorem codeBlocks_flatten {parts : List (List Text)} (h : ∀ part ∈ parts, Balanced part) :
    codeBlocks parts.flatten = parts.flatMap codeBlocks := by
  induction parts with
  | nil => rfl
  | cons part rest ih =>
    rw [List.flatten_cons, codeBlocks_append (h part List.mem_cons_self),
      ih fun p hp => h p (List.mem_cons_of_mem _ hp), List.flatMap_cons]

end

/-! ## Bodies -/

/-- What has been written of a body, with the width that is taken from its lines and the numbers of
the source lines that it is made of. -/
inductive BlockBody (ls : List Text) : Option Nat → List Nat → List Text → Prop
  | empty : BlockBody ls none [] []
  | first {n : Nat} {text : Text} (doc : BodyText ls n text) :
      BlockBody ls (some text.indent) [n] [dedent text.indent text]
  | next {width n : Nat} {numbers : List Nat} {body : List Text} {text : Text}
      (before : BlockBody ls (some width) numbers body) (blank : Bool) (doc : BodyText ls n text) :
      BlockBody ls (some width) (numbers ++ [n])
        (body ++ ((if blank then [[]] else []) ++ [dedent width text]))

theorem isBlankText_of_isBody {text : Text} (h : isBody text = true) :
    text.isBlankText = false := by
  simp only [isBody, Bool.and_eq_true, Bool.not_eq_true'] at h
  exact h.1.2

theorem isBlankText_dedent {text : Text} (width : Nat) (h : text.isBlankText = false) :
    (dedent width text).isBlankText = false := by
  obtain ⟨blanks, blank, -, he⟩ := dedent_spec width h
  have whole := Text.isBlankText_stripRight h
  rw [he, Text.isBlankText, List.all_append, ← Text.isBlankText, blank] at whole
  exact whole

section

variable {ls : List Text} {n : Nat} {text : Text} {width : Option Nat} {numbers : List Nat}
  {body : List Text}

theorem BodyText.isBlankText (h : BodyText ls n text) : text.isBlankText = false := by
  obtain ⟨-, -, -, -, hb⟩ := h
  exact isBlankText_of_isBody hb

theorem BodyText.dedented (h : BodyText ls n text) (width : Nat) :
    Dedented width text (dedent width text) :=
  dedent_spec width h.isBlankText

namespace BlockBody

theorem filled {width : Nat} (h : BlockBody ls (some width) numbers body) : body ≠ [] := by
  cases h <;> simp

theorem head (h : BlockBody ls width numbers body) :
    ∀ line ∈ body.head?, line.isBlankText = false := by
  induction h with
  | empty => exact nofun
  | first doc => exact fun line hl => Option.some.inj hl ▸ isBlankText_dedent _ doc.isBlankText
  | next before _ _ ih =>
    rw [List.head?_append_of_ne_nil _ before.filled]
    exact ih

theorem last (h : BlockBody ls width numbers body) :
    ∀ line ∈ body.getLast?, line.isBlankText = false := by
  cases h with
  | empty => exact nofun
  | first doc => exact fun line hl => Option.some.inj hl ▸ isBlankText_dedent _ doc.isBlankText
  | next _ _ doc =>
    intro line hl
    rw [← List.append_assoc, List.getLast?_concat] at hl
    exact Option.some.inj hl ▸ isBlankText_dedent _ doc.isBlankText

theorem single (h : BlockBody ls width numbers body) :
    body.IsChain fun line next => line.isBlankText = false ∨ next.isBlankText = false := by
  induction h with
  | empty => exact .nil
  | first => exact .singleton _
  | next before blank doc ih =>
    have text := fun width => isBlankText_dedent width doc.isBlankText
    refine ih.append ?_ fun line hl _ _ => .inl (before.last line hl)
    cases blank with
    | true => exact .cons_cons (.inr (text _)) (.singleton _)
    | false => exact .singleton _

theorem blanks (h : BlockBody ls width numbers body) :
    ∀ line ∈ body, line.isBlankText = true → line = [] := by
  have text {n : Nat} {t : Text} (doc : BodyText ls n t) (width : Nat) :
      (dedent width t).isBlankText = true → dedent width t = [] := fun blank =>
    nomatch blank.symm.trans (isBlankText_dedent width doc.isBlankText)
  induction h with
  | empty => exact nofun
  | first doc => exact List.forall_mem_singleton.2 (text doc _)
  | next _ blank doc ih =>
    refine List.forall_mem_append.2 ⟨ih, List.forall_mem_append.2 ⟨?_, ?_⟩⟩
    · cases blank with
      | true => exact List.forall_mem_singleton.2 fun _ => rfl
      | false => exact nofun
    · exact List.forall_mem_singleton.2 (text doc _)

theorem texts (h : BlockBody ls width numbers body) :
    ∃ texts : List Text, texts.head?.map Text.indent = width ∧
      List.Forall₂ (BodyText ls) numbers texts ∧
      List.Forall₂ (Dedented (width.getD 0)) texts
        (body.filter fun line => !line.isBlankText) := by
  induction h with
  | empty => exact ⟨[], rfl, .nil, .nil⟩
  | @first n text doc =>
    refine ⟨[text], rfl, .cons doc .nil, ?_⟩
    have kept := isBlankText_dedent text.indent doc.isBlankText
    simp only [List.filter_cons, kept, Bool.not_false, if_true, List.filter_nil]
    exact .cons (doc.dedented _) .nil
  | @next width n numbers body text before blank doc ih =>
    obtain ⟨texts, hw, hn, hd⟩ := ih
    have kept := isBlankText_dedent width doc.isBlankText
    refine ⟨texts ++ [text], ?_, ?_, ?_⟩
    · cases texts with
      | nil => cases hw
      | cons => exact hw
    · exact List.rel_append hn (.cons doc .nil)
    · have more : List.filter (fun line => !line.isBlankText)
          ((if blank then [[]] else []) ++ [dedent width text]) = [dedent width text] := by
        have gap : Text.isBlankText [] = true := rfl
        cases blank <;> simp [kept, gap]
      rw [List.filter_append, more]
      exact List.rel_append hd (.cons (doc.dedented _) .nil)

theorem codeBlock (h : BlockBody ls width numbers body) : CodeBlock ls numbers body where
  first := h.head
  last := h.last
  single := h.single
  empty := h.blanks
  texts := by
    obtain ⟨texts, hw, hn, hd⟩ := h.texts
    exact ⟨texts, hn, hw ▸ hd⟩

end BlockBody

end

end NimMarkdown
