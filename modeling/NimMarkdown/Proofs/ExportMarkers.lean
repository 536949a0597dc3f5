import NimMarkdown.Line.Export
import NimMarkdown.Proofs.Names

/-!
# Export markers

The export test reads names from the left and asks for a star behind each. Whether a star is a
marker can be told from what stands around it (`IsMarker`). To its right stand a bracket, a
colon or `=`. To its left the longest run of word characters is an identifier, or two
backticks that follow each other enclose an operator. The test finds exactly these stars
(`exists_isMarker_iff`), although a backtick that it passes may belong to the pair before or
behind, and a run of word characters may begin with a digit. More text to the right of
a marker makes no difference (`IsMarker.append`).
-/

namespace NimMarkdown.Line

variable {line before behind t : Text} {k : Nat}

/-- The text does not end in a word character, so a name behind it is no part of a word. -/
def OutsideWord (before : Text) : Prop := ∀ c ∈ before.getLast?, isWord c = false

/-- The longest run of word characters at the end of the text begins as a name does. -/
def EndsInIdentifier (t : Text) : Prop := ∃ c ∈ (t.rtakeWhile isWord).head?, isNameStart c = true

/-- A backtick ends the text, and there is something between it and the nearest one before it,
which stands outside of a word. -/
def EndsInOperator (t : Text) : Prop :=
  ∃ before inside : Text, t = before ++ ('\x60' :: inside ++ ['\x60']) ∧ inside ≠ [] ∧
    '\x60' ∉ inside ∧ OutsideWord before

/-- At position `k` stands a star that is an export marker. -/
structure IsMarker (t : Text) (k : Nat) : Prop where
  star : t[k]? = some '*'
  behind : t[k + 1]? ∈ [some '(', some ':', some '[', some '\x7b'] ∨
    (t.drop (k + 1)).find? (!isBlank ·) = some '='
  before : EndsInIdentifier (t.take k) ∨ EndsInOperator (t.take k)

/-! ## What stands before the star -/

theorem outsideWord_rdropWhile (t : Text) : OutsideWord (t.rdropWhile isWord) := fun c hc => by
  rw [List.rdropWhile, List.getLast?_reverse] at hc
  exact endsWord_dropWhile t.reverse c hc

theorem endsInIdentifier_iff :
    EndsInIdentifier t ↔ ∃ (before : Text) (n : Identifier), t = before ++ n.text ∧
      OutsideWord before := by
  constructor
  · rintro ⟨c, hc, starts⟩
    obtain ⟨r, hr⟩ := List.head?_eq_some_iff.1 hc
    have run : ∀ d ∈ c :: r, isWord d = true := fun d hd => List.mem_rtakeWhile_imp (hr ▸ hd)
    have continues : r.all isWord = true :=
      List.all_eq_true.2 fun d hd => run d (List.mem_cons_of_mem _ hd)
    refine ⟨t.rdropWhile isWord, ⟨c, r, starts, continues⟩, ?_, outsideWord_rdropWhile t⟩
    rw [Word.text, ← hr, List.rdropWhile_append_rtakeWhile]
  · rintro ⟨before, n, rfl, outside⟩
    have run : ∀ c ∈ n.text.reverse, isWord c = true := fun c hc =>
      n.isWord c (List.mem_reverse.1 hc)
    have ends : ∀ c ∈ before.reverse.head?, isWord c = false := by
      rw [List.head?_reverse]
      exact outside
    have longest : (before ++ n.text).rtakeWhile isWord = n.text := by
      rw [List.rtakeWhile, List.reverse_append, (run_append run ends).1, List.reverse_reverse]
    exact ⟨n.first, by rw [longest]; rfl, n.first_starts⟩

/-- A star sees the name before it, also where the name is found from its other end. -/
theorem endsInName_iff :
    EndsInIdentifier t ∨ EndsInOperator t ↔
      ∃ before name : Text, t = before ++ name ∧ OutsideWord before ∧ IsName name := by
  rw [endsInIdentifier_iff]
  constructor
  · rintro (⟨before, n, rfl, outside⟩ | ⟨before, inside, rfl, filled, plain, outside⟩)
    · exact ⟨before, n.text, rfl, outside, .identifier n⟩
    · exact ⟨before, _, rfl, outside, .operator filled plain⟩
  · rintro ⟨before, _, rfl, outside, n | ⟨filled, plain⟩⟩
    · exact .inl ⟨before, n, rfl, outside⟩
    · exact .inr ⟨before, _, rfl, filled, plain, outside⟩

/-! ## The search for a marked name -/

theorem followsMarker_iff :
    followsMarker behind = true ↔ behind.head? ∈ [some '(', some ':', some '[', some '\x7b'] ∨
      behind.find? (!isBlank ·) = some '=' := by
  cases behind with
  | nil => simp [followsMarker]
  | cons c r =>
    rw [followsMarker, List.find?_not_eq_head?_dropWhile]
    simp [Text.stripLeft, or_assoc]

theorem startsExported_iff :
    startsExported t = true ↔ ∃ name behind : Text, t = name ++ '*' :: behind ∧ IsName name ∧
      followsMarker behind = true := by
  constructor
  · intro h
    unfold startsExported at h
    split at h
    · next behind read =>
      obtain ⟨name, named, rfl⟩ := name_of_afterName read
      exact ⟨name, behind, rfl, named, h⟩
    · cases h
  · rintro ⟨name, behind, rfl, named, follows⟩
    have ends : EndsWord ('*' :: behind) := by
      rintro _ ⟨⟩
      decide
    rw [startsExported, named.afterName ends]
    exact follows

theorem outsideWord_toList {previous : Option Char} :
    OutsideWord (previous.toList ++ []) ↔ (!previous.any isWord) = true := by
  cases previous <;> simp [OutsideWord]

/-- A marked name is found wherever it stands outside of a word. Of the text that the search has
passed, only the last character counts. -/
theorem exportedAfter_iff (previous : Option Char) :
    exportedAfter previous t = true ↔ ∃ before rest : Text, t = before ++ rest ∧
      OutsideWord (previous.toList ++ before) ∧ startsExported rest = true := by
  induction t generalizing previous with
  | nil =>
    refine iff_of_false (by simp [exportedAfter]) ?_
    rintro ⟨before, rest, he, -, starts⟩
    rw [(List.append_eq_nil_iff.1 he.symm).2] at starts
    cases starts
  | cons c r ih =>
    rw [exportedAfter, Bool.or_eq_true, Bool.and_eq_true, ih]
    constructor
    · rintro (⟨outside, starts⟩ | ⟨before, rest, rfl, outside, starts⟩)
      · exact ⟨[], c :: r, rfl, outsideWord_toList.2 outside, starts⟩
      · exact ⟨c :: before, rest, rfl, by simpa [OutsideWord] using outside, starts⟩
    · rintro ⟨before, rest, he, outside, starts⟩
      cases before with
      | nil =>
        obtain rfl : c :: r = rest := he
        exact .inl ⟨outsideWord_toList.1 outside, starts⟩
      | cons d before =>
        obtain ⟨rfl, rfl⟩ := List.cons_eq_cons.1 he
        exact .inr ⟨before, rest, rfl, by simpa [OutsideWord] using outside, starts⟩

/-! ## Stars that are markers -/

theorem split_of_getElem? {c : Char} (h : t[k]? = some c) :
    ∃ before behind : Text, t = before ++ c :: behind ∧ before.length = k := by
  obtain ⟨hk, rfl⟩ := List.getElem?_eq_some_iff.1 h
  refine ⟨t.take k, t.drop (k + 1), ?_, List.length_take_of_le hk.le⟩
  rw [← List.drop_eq_getElem_cons hk, List.take_append_drop]

theorem isMarker_split :
    IsMarker (before ++ '*' :: behind) before.length ↔
      (EndsInIdentifier before ∨ EndsInOperator before) ∧ followsMarker behind = true := by
  have left : (before ++ '*' :: behind).take before.length = before := List.take_left
  have right : (before ++ '*' :: behind).drop (before.length + 1) = behind := by simp
  rw [followsMarker_iff]
  constructor
  · rintro ⟨-, follows, name⟩
    rw [← List.head?_drop, right] at follows
    exact ⟨left ▸ name, follows⟩
  · rintro ⟨name, follows⟩
    exact ⟨by simp, by rwa [← List.head?_drop, right], left.symm ▸ name⟩

theorem exists_isMarker_iff : (∃ k, IsMarker line k) ↔ isExported line = true := by
  rw [isExported, exportedAfter_iff]
  constructor
  · rintro ⟨k, marker⟩
    obtain ⟨t, behind, rfl, rfl⟩ := split_of_getElem? marker.star
    obtain ⟨ends, follows⟩ := isMarker_split.1 marker
    obtain ⟨before, name, rfl, outside, named⟩ := endsInName_iff.1 ends
    exact ⟨before, name ++ '*' :: behind, List.append_assoc .., outside,
      startsExported_iff.2 ⟨name, behind, rfl, named, follows⟩⟩
  · rintro ⟨before, rest, rfl, outside, starts⟩
    obtain ⟨name, behind, rfl, named, follows⟩ := startsExported_iff.1 starts
    have ends := endsInName_iff.2 ⟨before, name, rfl, outside, named⟩
    refine ⟨(before ++ name).length, ?_⟩
    rw [← List.append_assoc]
    exact isMarker_split.2 ⟨ends, follows⟩

theorem followsMarker_append (h : followsMarker behind = true) (more : Text) :
    followsMarker (behind ++ more) = true := by
  rw [followsMarker_iff] at h ⊢
  refine h.imp (fun glued => ?_) (List.IsPrefix.find?_eq_some (List.prefix_append behind more))
  cases behind with
  | nil => simp at glued
  | cons c r => exact glued

/-- A marker stays one whatever the line goes on with. -/
theorem IsMarker.append (h : IsMarker line k) (more : Text) : IsMarker (line ++ more) k := by
  obtain ⟨before, behind, rfl, rfl⟩ := split_of_getElem? h.star
  obtain ⟨name, follows⟩ := isMarker_split.1 h
  rw [List.append_assoc, List.cons_append]
  exact isMarker_split.2 ⟨name, followsMarker_append follows more⟩

/-- **The export test is a look at each star.** A line is exported exactly if one of its stars has
a name before it, and behind it a bracket, a colon or `=`. So the blanks around a line make no
difference, and a line that begins with an exported one is exported. -/
theorem isExported_iff (line : Text) :
    (isExported line = true ↔ ∃ k, IsMarker line k) ∧
    isExported line = isExported line.strip ∧
    ∀ start : Text, start <+: line → isExported start = true → isExported line = true := by
  refine ⟨exists_isMarker_iff.symm, (isExported_trim.strip line).symm, ?_⟩
  rintro start ⟨more, rfl⟩ exported
  obtain ⟨k, marker⟩ := exists_isMarker_iff.2 exported
  exact exists_isMarker_iff.1 ⟨k, marker.append more⟩

/-- The first backtick of this line stands alone, and the test passes it before it finds the
operator; the star in the comment is no marker. -/
theorem isExported_iff_loneQuote :
    let start := "  ` `+`*(".toList
    let line := "  ` `+`*(x: int) # a *b`*".toList
    start <+: line ∧ isExported start = true ∧ isExported (Text.strip line) = true ∧
      ∃ k, IsMarker line k := by
  intro start line
  have begins : start <+: line := by decide
  have exported : isExported start = true := by decide
  obtain ⟨stars, trimmed, longer⟩ := isExported_iff line
  have found : isExported line = true := longer start begins exported
  exact ⟨begins, exported, trimmed ▸ found, stars.1 found⟩

end NimMarkdown.Line
