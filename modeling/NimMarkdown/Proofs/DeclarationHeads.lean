import Mathlib.Algebra.Group.Nat.Even
import NimMarkdown.Proofs.DocumentLines
import NimMarkdown.Proofs.Names
import NimMarkdown.Proofs.Readings

/-!
# Heads of declarations

What a line declares is told by its first word, and its heading by the first character that ends
one. The heading may end at a position where the backticks before it pair up (`EndsAt`); the
scan of the line carries this as a toggle, and it stops at the first such position
(`headingPart_of_first`). A keyword opens a routine where it is the whole leading word
(`OpensWith`): the longest run of word characters is taken, so a longer word that begins
with a keyword opens nothing (`routine?_of_longer`).
-/

namespace NimMarkdown.Line

variable {line t u : Text} {inOperator : Bool} {i : Nat}

/-! ## Headings -/

/-- At position `i` a heading may end: there stands a character that ends one, and the backticks
before it pair up, with the one that is open at the start of the text, if any. -/
def EndsAt (inOperator : Bool) (t : Text) (i : Nat) : Prop :=
  t[i]? ∈ [some '(', some ':', some '=', some '\x7b'] ∧
    Even (inOperator.toNat + (t.take i).count '\x60')

instance : DecidablePred (EndsAt inOperator t) := fun _ => inferInstanceAs (Decidable (_ ∧ _))

theorem EndsAt.lt (h : EndsAt inOperator t i) : i < t.length := by
  by_contra beyond
  rw [EndsAt, List.getElem?_eq_none (Nat.le_of_not_lt beyond)] at h
  simp at h

theorem endsHeading_iff {c : Char} :
    endsHeading c = true ↔ some c ∈ [some '(', some ':', some '=', some '\x7b'] := by
  simp [endsHeading, or_assoc]

theorem endsAt_cons_zero {c : Char} {r : Text} :
    EndsAt inOperator (c :: r) 0 ↔ endsHeading c = true ∧ inOperator = false := by
  rw [endsHeading_iff]
  cases inOperator <;> simp [EndsAt]

/-- A backtick before the position opens or closes an operator name. -/
theorem endsAt_cons_succ {c : Char} {r : Text} :
    EndsAt inOperator (c :: r) (i + 1) ↔ EndsAt (inOperator ^^ (c == '\x60')) r i := by
  simp only [EndsAt, List.getElem?_cons_succ, List.take_succ_cons, List.count_cons]
  cases inOperator <;> cases c == '\x60' <;> simp [Nat.even_add_one, Nat.even_add]

/-- The scan stops at a character that ends a heading outside of operator names. -/
theorem headingPart_cons (inOperator : Bool) (c : Char) (r : Text) :
    headingPart inOperator (c :: r) =
      if endsHeading c && !inOperator then []
      else c :: headingPart (inOperator ^^ (c == '\x60')) r := by
  rw [headingPart]
  by_cases quote : c = '\x60'
  · subst quote
    simp [endsHeading]
  · rw [if_neg (by simpa using quote), beq_false_of_ne quote, Bool.xor_false, Bool.and_comm]

theorem headingPart_cons_of_not_endsAt {c : Char} {r : Text}
    (h : ¬ EndsAt inOperator (c :: r) 0) :
    headingPart inOperator (c :: r) = c :: headingPart (inOperator ^^ (c == '\x60')) r := by
  have goes : (endsHeading c && !inOperator) = false := by simpa [endsAt_cons_zero] using h
  rw [headingPart_cons, goes, if_neg Bool.false_ne_true]

theorem headingPart_of_first (h : EndsAt inOperator t i)
    (first : ∀ j < i, ¬ EndsAt inOperator t j) : headingPart inOperator t = t.take i := by
  -- The state of the scan goes into the induction: a backtick changes it for the rest.
  induction t generalizing inOperator i with
  | nil => simp [EndsAt] at h
  | cons c r ih =>
    cases i with
    | zero =>
      obtain ⟨ends, outside⟩ := endsAt_cons_zero.1 h
      rw [headingPart_cons, ends, outside]
      rfl
    | succ i =>
      have rest : ∀ j < i, ¬ EndsAt (inOperator ^^ (c == '\x60')) r j := fun j hj ends =>
        first (j + 1) (Nat.succ_lt_succ hj) (endsAt_cons_succ.2 ends)
      rw [headingPart_cons_of_not_endsAt (first 0 (Nat.succ_pos i)), List.take_succ_cons,
        ih (endsAt_cons_succ.1 h) rest]

theorem headingPart_of_never (h : ∀ i, ¬ EndsAt inOperator t i) : headingPart inOperator t = t := by
  induction t generalizing inOperator with
  | nil => rfl
  | cons c r ih =>
    rw [headingPart_cons_of_not_endsAt (h 0), ih fun i ends => h (i + 1) (endsAt_cons_succ.2 ends)]

/-- What the scan has passed, it passes again. -/
theorem headingPart_of_start (h : u <+: headingPart inOperator t) :
    headingPart inOperator u = u := by
  induction t generalizing inOperator u with
  | nil => rw [List.prefix_nil.1 h]; rfl
  | cons c r ih =>
    cases u with
    | nil => rfl
    | cons d u =>
      rw [headingPart_cons] at h
      split at h
      · cases List.prefix_nil.1 h
      · next goes =>
        obtain ⟨rfl, start⟩ := List.cons_prefix_cons.1 h
        rw [headingPart_cons, if_neg goes, ih start]

theorem declarationHeading_idempotent (line : Text) :
    declarationHeading (declarationHeading line) = declarationHeading line := by
  have start : headingPart false line.strip <+: line.strip := headingPart_isPrefix false line.strip
  have again : headingPart false (declarationHeading line) = declarationHeading line :=
    headingPart_of_start (Text.stripRight_isPrefix (headingPart false line.strip))
  have trimmed : (declarationHeading line).strip = declarationHeading line := by
    rw [declarationHeading, Text.strip_trim.stripRight, Text.strip, Text.stripLeft_of_start start]
  calc declarationHeading (declarationHeading line)
      = (declarationHeading line).stripRight := by rw [declarationHeading, trimmed, again]
    _ = declarationHeading line := Text.stripRight_stripRight _

/-! ## Keywords -/

variable {keyword rest : Text} {kind : Routine} {c : Char}

/-- Behind its indent the line begins with a keyword of the kind, and nothing or a character that
belongs to no word follows. -/
def OpensWith (kind : Routine) (line : Text) : Prop :=
  ∃ keyword rest : Text, (keyword, kind) ∈ routineKeywords ∧ line.stripLeft = keyword ++ rest ∧
    EndsWord rest

/-- Every keyword is a word, and it has one kind. -/
theorem routineKeywords_words : ∀ entry ∈ routineKeywords,
    entry.1.head?.any isNameStart = true ∧ entry.1.all isWord = true ∧
      routineKeywords.lookup entry.1 = some entry.2 := by
  decide

/-- No keyword begins with another one. -/
theorem routineKeywords_apart : ∀ a ∈ routineKeywords, ∀ b ∈ routineKeywords,
    a.1 <+: b.1 → a.1 = b.1 := by
  decide

theorem leadingWord_of_keyword (h : (keyword, kind) ∈ routineKeywords)
    (hs : line.stripLeft = keyword ++ rest) (ends : EndsWord rest) :
    leadingWord line = some keyword := by
  obtain ⟨first, word, -⟩ := routineKeywords_words _ h
  obtain ⟨n, rfl⟩ : ∃ n : Identifier, n.text = keyword := Word.exists_text first word
  exact leadingWord_eq_some_iff.2 ⟨n, rest, rfl, hs, ends⟩

theorem routine?_eq_some_iff :
    routine? line = some kind ↔ '#' ∉ line ∧ OpensWith kind line := by
  constructor
  · intro h
    obtain ⟨unmarked, word, leads, found⟩ := keyword_of_routine? h
    obtain ⟨n, rest, rfl, hs, ends⟩ := leadingWord_eq_some_iff.1 leads
    exact ⟨unmarked, n.text, rest, mem_of_lookup found, hs, ends⟩
  · rintro ⟨unmarked, keyword, rest, hk, hs, ends⟩
    have mark : line.contains '#' = false := by simpa using unmarked
    rw [routine?, mark, if_neg Bool.false_ne_true, leadingWord_of_keyword hk hs ends]
    exact (routineKeywords_words _ hk).2.2

/-- A line that goes on with the word behind a keyword opens nothing. -/
theorem routine?_of_longer (hk : (keyword, kind) ∈ routineKeywords)
    (hs : line.stripLeft = keyword ++ c :: rest) (longer : isWord c = true) :
    routine? line = none := by
  refine Option.eq_none_iff_forall_ne_some.2 fun kind' opens => ?_
  obtain ⟨-, keyword', rest', hk', hs', ends⟩ := routine?_eq_some_iff.1 opens
  -- The leading word is the other keyword, and longer than this one.
  have word : ∀ d ∈ keyword, isWord d = true :=
    List.all_eq_true.1 (routineKeywords_words _ hk).2.1
  have word' : ∀ d ∈ keyword', isWord d = true :=
    List.all_eq_true.1 (routineKeywords_words _ hk').2.1
  have leads : keyword' = keyword ++ c :: rest.takeWhile isWord := by
    rw [← (run_append word' ends).1, ← hs', hs, List.takeWhile_append_of_pos word,
      List.takeWhile_cons_of_pos longer]
  have same : keyword = keyword' :=
    routineKeywords_apart _ hk _ hk' (leads ▸ List.prefix_append _ _)
  subst same
  simp at leads

theorem kind_unique {kind' : Routine} (h : OpensWith kind line) (h' : OpensWith kind' line) :
    kind = kind' := by
  obtain ⟨keyword, rest, hk, hs, ends⟩ := h
  obtain ⟨keyword', rest', hk', hs', ends'⟩ := h'
  have same : keyword = keyword' := Option.some.inj
    ((leadingWord_of_keyword hk hs ends).symm.trans (leadingWord_of_keyword hk' hs' ends'))
  have found := (routineKeywords_words _ hk).2.2
  rw [same, (routineKeywords_words _ hk').2.2] at found
  exact (Option.some.inj found).symm

/-- **Headings and keywords are cut at the right place.** The heading of a line is what stands
before the first position where one may end, or the whole trimmed line; a heading is its own
heading, and the blanks around a line make no difference. A line opens a routine exactly if no
comment stands in it and its leading word is a keyword of that kind; so a longer word that begins
with a keyword opens nothing, and the kind is unique. -/
theorem declarationHead_cut (line : Text) :
    ((∀ i, EndsAt false line.strip i → (∀ j < i, ¬ EndsAt false line.strip j) →
        declarationHeading line = Text.stripRight (line.strip.take i)) ∧
      ((∀ i, ¬ EndsAt false line.strip i) → declarationHeading line = line.strip) ∧
      declarationHeading (declarationHeading line) = declarationHeading line ∧
      ∀ left right : Text, left.isBlankText = true → right.isBlankText = true →
        declarationHeading (left ++ line ++ right) = declarationHeading line) ∧
    (∀ kind, routine? line = some kind ↔ '#' ∉ line ∧ OpensWith kind line) ∧
    (∀ keyword kind c rest, (keyword, kind) ∈ routineKeywords →
      line.stripLeft = keyword ++ c :: rest → isWord c = true → routine? line = none) ∧
    ∀ kind kind', OpensWith kind line → OpensWith kind' line → kind = kind' := by
  refine ⟨⟨fun i ends first => ?_, fun never => ?_, declarationHeading_idempotent line,
    fun left right hl hr => declarationHeading_trim.around hl hr line⟩,
    fun kind => routine?_eq_some_iff, fun keyword kind c rest hk hs longer =>
      routine?_of_longer hk hs longer, fun kind kind' => kind_unique⟩
  · rw [declarationHeading, headingPart_of_first ends first]
  · rw [declarationHeading, headingPart_of_never never, Text.strip, Text.stripRight_stripRight]

/-- An operator whose name holds what ends a heading, and one whose name is not closed, behind a
word that begins with a keyword. -/
theorem declarationHead_cut_operators :
    let line := "proc `=(=`*(a: int) =".toList
    let unclosed := "proc² `(=".toList
    EndsAt false (Text.strip line) 11 ∧ (∀ j < 11, ¬ EndsAt false (Text.strip line) j) ∧
      declarationHeading line = "proc `=(=`*".toList ∧
      declarationHeading ([' '] ++ line ++ ['\t']) = "proc `=(=`*".toList ∧
      OpensWith .proc line ∧ (∀ kind, OpensWith kind line → kind = .proc) ∧
      (∀ i, ¬ EndsAt false (Text.strip unclosed) i) ∧
      declarationHeading unclosed = unclosed ∧ routine? unclosed = none := by
  intro line unclosed
  have ends : EndsAt false (Text.strip line) 11 := by decide
  have first : ∀ j < 11, ¬ EndsAt false (Text.strip line) j := by decide
  obtain ⟨⟨cut, -, -, around⟩, opens, -, unique⟩ := declarationHead_cut line
  obtain ⟨⟨-, whole, -, -⟩, -, longer, -⟩ := declarationHead_cut unclosed
  have heading : declarationHeading line = "proc `=(=`*".toList := cut 11 ends first
  have keyword : OpensWith .proc line := ((opens .proc).1 (by decide)).2
  have never : ∀ i, ¬ EndsAt false (Text.strip unclosed) i := fun i h =>
    (by decide : ∀ i < 9, ¬ EndsAt false (Text.strip unclosed) i) i h.lt h
  exact ⟨ends, first, heading, (around [' '] ['\t'] (by decide) (by decide)).trans heading, keyword,
    fun kind h => unique kind .proc h keyword, never, whole never,
    longer "proc".toList .proc '²' " `(=".toList (by decide) (by decide) (by decide)⟩

end NimMarkdown.Line
