import NimMarkdown.Proofs.Trim

/-!
# Names

A name is an identifier, or an operator between backticks (`IsName`). The readers of
names take the longest run of word characters, so they read an identifier where the
text behind it does not go on with such a character (`EndsWord`), and not a part of
one. An operator ends at the next backtick, whatever stands behind it.
-/

namespace NimMarkdown

/-- A text of word characters, of which the first may start it. -/
structure Word (starts : Char → Bool) where
  first : Char
  rest : Text
  first_starts : starts first = true
  rest_continues : rest.all isWord = true

def Word.text {starts : Char → Bool} (w : Word starts) : Text := w.first :: w.rest

abbrev Identifier := Word isNameStart

/-- A number such as `10`, `1_000` or `0xFF`, or a part of one beside its point. -/
abbrev Numeral := Word isAsciiDigit

namespace Word

variable {starts : Char → Bool}

theorem isWord_of_mem (w : Word starts) (h : ∀ {c}, starts c = true → isWord c = true) :
    ∀ c ∈ w.text, isWord c = true :=
  List.forall_mem_cons.2 ⟨h w.first_starts, List.all_eq_true.1 w.rest_continues⟩

theorem exists_text {t : Text} (first : t.head?.any starts = true) (word : t.all isWord = true) :
    ∃ w : Word starts, w.text = t := by
  cases t with
  | nil => cases first
  | cons c r =>
    rw [List.all_cons, Bool.and_eq_true] at word
    exact ⟨⟨c, r, first, word.2⟩, rfl⟩

end Word

theorem Identifier.isWord (n : Identifier) : ∀ c ∈ n.text, NimMarkdown.isWord c = true :=
  n.isWord_of_mem isWord_of_isNameStart

namespace Line

variable {t rest line word : Text}

/-- The text does not go on with a word character. -/
def EndsWord (rest : Text) : Prop := ∀ c ∈ rest.head?, isWord c = false

/-- An identifier, or an operator between backticks. -/
inductive IsName : Text → Prop
  | identifier (n : Identifier) : IsName n.text
  | operator {inside : Text} (filled : inside ≠ []) (plain : '\x60' ∉ inside) :
      IsName ('\x60' :: inside ++ ['\x60'])

theorem endsWord_dropWhile (t : Text) : EndsWord (t.dropWhile isWord) := fun c hc => by
  have first := List.head?_dropWhile_not isWord t
  rw [Option.mem_def.1 hc] at first
  exact first

/-- A text that begins with the first character of a name begins with an identifier. -/
theorem identifier_split {c : Char} (h : isNameStart c = true) (r : Text) :
    ∃ n : Identifier, n.text = c :: r.takeWhile isWord ∧ c :: r = n.text ++ r.dropWhile isWord :=
  ⟨⟨c, r.takeWhile isWord, h, List.all_takeWhile⟩, rfl,
    congrArg (c :: ·) List.takeWhile_append_dropWhile.symm⟩

theorem afterIdentifier_eq_some_iff :
    afterIdentifier t = some rest ↔ ∃ n : Identifier, t = n.text ++ rest ∧ EndsWord rest := by
  constructor
  · intro h
    cases t with
    | nil => cases h
    | cons c r =>
      rw [afterIdentifier] at h
      split at h
      · next starts =>
        cases h
        obtain ⟨n, -, split⟩ := identifier_split starts r
        exact ⟨n, split, endsWord_dropWhile r⟩
      · cases h
  · rintro ⟨n, rfl, ends⟩
    have behind := (run_append (List.all_eq_true.1 n.rest_continues) ends).2
    rw [Word.text, List.cons_append, afterIdentifier, if_pos n.first_starts, behind]

theorem afterOperator_eq_some_iff :
    afterOperator t = some rest ↔
      ∃ inside, t = '\x60' :: inside ++ '\x60' :: rest ∧ inside ≠ [] ∧ '\x60' ∉ inside := by
  constructor
  · intro h
    unfold afterOperator at h
    split at h
    · next r =>
      split at h
      · cases h
      · next filled =>
        split at h
        · next hd =>
          cases h
          obtain ⟨split, plain⟩ := Text.split_at_mark hd
          exact ⟨_, congrArg ('\x60' :: ·) split, by simpa using filled, plain⟩
        · cases h
    · cases h
  · rintro ⟨inside, rfl, filled, plain⟩
    obtain ⟨here, behind⟩ := Text.append_mark plain rest
    rw [List.cons_append, afterOperator, here, behind, if_neg (by simpa using filled)]

/-- What the reader of names reads is a name. -/
theorem name_of_afterName (h : afterName t = some rest) :
    ∃ name, IsName name ∧ t = name ++ rest := by
  rw [afterName, Option.orElse_eq_orElse, Option.orElse_eq_or, Option.or_eq_some_iff] at h
  obtain h | ⟨-, h⟩ := h
  · obtain ⟨n, he, -⟩ := afterIdentifier_eq_some_iff.1 h
    exact ⟨n.text, .identifier n, he⟩
  · obtain ⟨inside, he, filled, plain⟩ := afterOperator_eq_some_iff.1 h
    exact ⟨_, .operator filled plain, by simp [he]⟩

/-- A name is read where no word character stands behind it. -/
theorem IsName.afterName {name : Text} (h : IsName name) (ends : EndsWord rest) :
    Line.afterName (name ++ rest) = some rest := by
  rw [Line.afterName]
  cases h with
  | identifier n =>
    rw [afterIdentifier_eq_some_iff.2 ⟨n, rfl, ends⟩]
    rfl
  | @operator inside filled plain =>
    have behind : afterOperator ('\x60' :: inside ++ '\x60' :: rest) = some rest :=
      afterOperator_eq_some_iff.2 ⟨inside, rfl, filled, plain⟩
    rw [List.append_assoc]
    exact behind

/-- The leading word of a line is its longest one. -/
theorem leadingWord_eq_some_iff :
    leadingWord line = some word ↔
      ∃ (n : Identifier) (rest : Text), word = n.text ∧ line.stripLeft = n.text ++ rest ∧
        EndsWord rest := by
  unfold leadingWord
  constructor
  · intro h
    split at h
    · cases h
    · next c r hs =>
      split at h
      · next starts =>
        cases h
        obtain ⟨n, here, split⟩ := identifier_split starts r
        exact ⟨n, _, here.symm, hs.trans split, endsWord_dropWhile r⟩
      · cases h
  · rintro ⟨n, rest, rfl, hs, ends⟩
    have here := (run_append (List.all_eq_true.1 n.rest_continues) ends).1
    rw [hs, Word.text, List.cons_append]
    simp only [n.first_starts, here, if_true]

end Line

end NimMarkdown
