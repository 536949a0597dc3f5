import NimMarkdown.Line.Entry
import NimMarkdown.Proofs.Names

/-!
# The grammar of entries

An entry is put together from a name, maybe a star, type parameters, a pragma, and `:` or
`=`, with blanks between these parts (`EntryForm`). The reader takes the parts from the
left and never gives one back, except the pragma, which it may end at any `.` and
closing brace. That is enough, as the first character behind a part tells which part
is next: a text that can be taken apart at all is taken apart by the reader
(`isEntry_iff`).
-/

namespace NimMarkdown.Line

variable {s t blanks : Text}

/-- Type parameters in square brackets, or none. -/
inductive TypeParameters : Text → Prop
  | none : TypeParameters []
  | brackets {inside : Text} (plain : ']' ∉ inside) : TypeParameters ('[' :: inside ++ [']'])

/-- A pragma, or none. What stands inside may look like the end of one. -/
inductive Pragma : Text → Prop
  | none : Pragma []
  | braces (inside : Text) : Pragma ('\x7b' :: '.' :: inside ++ ['.', '\x7d'])

/-- The text can be taken apart into the parts of an entry. -/
inductive EntryForm : Text → Prop
  | intro {name star gap parameters gap' pragma gap'' rest : Text} {sign : Char}
      (named : IsName name) (marked : star = [] ∨ star = ['*'])
      (blank : gap.isBlankText = true) (typed : TypeParameters parameters)
      (blank' : gap'.isBlankText = true) (tagged : Pragma pragma)
      (blank'' : gap''.isBlankText = true) (value : sign = ':' ∨ sign = '=') :
      EntryForm (name ++ star ++ gap ++ parameters ++ gap' ++ pragma ++ gap'' ++ sign :: rest)

/-! ## The readers of the parts -/

theorem startsValue_append (h : blanks.isBlankText = true) (t : Text) :
    startsValue (blanks ++ t) = startsValue t := by
  rw [startsValue, startsValue, Text.stripLeft_append h]

theorem startsValue_iff :
    startsValue t = true ↔ ∃ (gap : Text) (sign : Char) (rest : Text), t = gap ++ sign :: rest ∧
      gap.isBlankText = true ∧ (sign = ':' ∨ sign = '=') := by
  constructor
  · intro h
    obtain ⟨gap, split, blank⟩ := t.stripLeft_split
    unfold startsValue at h
    split at h
    · next rest hs => exact ⟨gap, ':', rest, hs ▸ split, blank, .inl rfl⟩
    · next rest hs => exact ⟨gap, '=', rest, hs ▸ split, blank, .inr rfl⟩
    · cases h
  · rintro ⟨gap, sign, rest, rfl, blank, rfl | rfl⟩
    · rw [startsValue_append blank]
      rfl
    · rw [startsValue_append blank]
      rfl

/-- A pragma ends at some `.` and closing brace, not always at the first. -/
theorem pragmaThenValue_iff (h : '\n' ∉ t) :
    pragmaThenValue t = true ↔
      ∃ inside rest : Text, t = inside ++ '.' :: '\x7d' :: rest ∧ startsValue rest = true := by
  induction t with
  | nil => simp [pragmaThenValue]
  | cons c r ih =>
    have here : (c != '\n') = true := bne_iff_ne.2 (Ne.symm (List.ne_of_not_mem_cons h))
    unfold pragmaThenValue
    rw [here, Bool.true_and, Bool.or_eq_true, Bool.and_eq_true, ih (List.not_mem_of_not_mem_cons h)]
    constructor
    · rintro (⟨dot, value⟩ | ⟨inside, rest, rfl, value⟩)
      · split at value
        · next rest => exact ⟨[], rest, by rw [beq_iff_eq.1 dot]; rfl, value⟩
        · cases value
      · exact ⟨c :: inside, rest, rfl, value⟩
    · rintro ⟨inside, rest, he, value⟩
      cases inside with
      | nil =>
        obtain ⟨rfl, rfl⟩ := List.cons_eq_cons.1 he
        exact .inl ⟨rfl, value⟩
      | cons d inside =>
        obtain ⟨rfl, rfl⟩ := List.cons_eq_cons.1 he
        exact .inr ⟨inside, rest, rfl, value⟩

theorem startsPragmaOrValue_append (h : blanks.isBlankText = true) (t : Text) :
    startsPragmaOrValue (blanks ++ t) = startsPragmaOrValue t := by
  rw [startsPragmaOrValue, startsPragmaOrValue, Text.stripLeft_append h]

theorem startsPragmaOrValue_iff (h : '\n' ∉ t) :
    startsPragmaOrValue t = true ↔ ∃ gap pragma rest : Text, t = gap ++ (pragma ++ rest) ∧
      gap.isBlankText = true ∧ Pragma pragma ∧ startsValue rest = true := by
  constructor
  · intro hp
    obtain ⟨gap, split, blank⟩ := t.stripLeft_split
    have unbroken : '\n' ∉ t.stripLeft := fun hm => h ((Text.stripLeft_suffix t).subset hm)
    unfold startsPragmaOrValue at hp
    split at hp
    · next body hs =>
      rw [hs] at split unbroken
      have inner : '\n' ∉ body := fun hm => unbroken (by simp [hm])
      obtain ⟨inside, rest, rfl, value⟩ := (pragmaThenValue_iff inner).1 hp
      exact ⟨gap, _, rest, by simpa using split, blank, .braces inside, value⟩
    · exact ⟨gap, [], t.stripLeft, split, blank, .none, hp⟩
  · rintro ⟨gap, pragma, rest, rfl, blank, tagged, value⟩
    rw [startsPragmaOrValue_append blank]
    cases tagged with
    | none =>
      obtain ⟨gap', sign, behind, rfl, blank', rfl | rfl⟩ := startsValue_iff.1 value
      · rw [List.nil_append, startsPragmaOrValue_append blank']
        rfl
      · rw [List.nil_append, startsPragmaOrValue_append blank']
        rfl
    | braces inside =>
      have inner : '\n' ∉ inside ++ '.' :: '\x7d' :: rest := fun hm => h (by
        simp only [List.mem_append, List.mem_cons] at hm ⊢
        tauto)
      rw [List.append_assoc]
      exact (pragmaThenValue_iff inner).2 ⟨inside, rest, rfl, value⟩

theorem startsEntryTail_append (h : blanks.isBlankText = true) (t : Text) :
    startsEntryTail (blanks ++ t) = startsEntryTail t := by
  rw [startsEntryTail, startsEntryTail, Text.stripLeft_append h]

theorem startsEntryTail_brackets {inside : Text} (plain : ']' ∉ inside) (rest : Text) :
    startsEntryTail ('[' :: inside ++ ']' :: rest) = startsPragmaOrValue rest := by
  rw [List.cons_append, startsEntryTail, Text.stripLeft_of_text (by decide)]
  simp only [(Text.append_mark plain rest).2]

/-- Where the tail of an entry has no type parameters, it begins with its pragma or its value. -/
theorem startsEntryTail_of_startsPragmaOrValue (h : startsPragmaOrValue t = true) :
    startsEntryTail t = true := by
  obtain ⟨gap, split, blank⟩ := t.stripLeft_split
  have trimmed : startsPragmaOrValue t.stripLeft = true := by
    rw [← startsPragmaOrValue_append blank, ← split]
    exact h
  unfold startsEntryTail
  split
  · next body hs =>
    rw [hs] at trimmed
    cases trimmed
  · exact trimmed

/-- Type parameters end at the first bracket that closes them. -/
theorem startsEntryTail_iff :
    startsEntryTail t = true ↔ ∃ gap parameters rest : Text, t = gap ++ (parameters ++ rest) ∧
      gap.isBlankText = true ∧ TypeParameters parameters ∧ startsPragmaOrValue rest = true := by
  constructor
  · intro h
    obtain ⟨gap, split, blank⟩ := t.stripLeft_split
    unfold startsEntryTail at h
    split at h
    · next body hs =>
      rw [hs] at split
      split at h
      · next rest hd =>
        obtain ⟨whole, plain⟩ := Text.split_at_mark hd
        refine ⟨gap, _, rest, ?_, blank, .brackets plain, h⟩
        rw [split, List.append_assoc, List.cons_append, List.singleton_append, ← whole]
      · cases h
    · exact ⟨gap, [], t.stripLeft, split, blank, .none, h⟩
  · rintro ⟨gap, parameters, rest, rfl, blank, none | plain, value⟩
    · rw [startsEntryTail_append blank]
      exact startsEntryTail_of_startsPragmaOrValue value
    · rw [startsEntryTail_append blank, List.append_assoc]
      exact (startsEntryTail_brackets plain rest).trans value

/-- The tail of an entry does not go on with its name or a star. -/
theorem startsEntryTail_first (h : startsEntryTail t = true) :
    ∀ c ∈ t.head?, isWord c = false ∧ c ≠ '*' := by
  cases t with
  | nil => nofun
  | cons c r =>
    rintro _ ⟨⟩
    by_cases blank : isBlank c = true
    · refine ⟨isWord_of_isBlank blank, ?_⟩
      rintro rfl
      exact absurd blank (by decide)
    · have here := Text.stripLeft_of_text (Bool.eq_false_iff.2 blank) r
      rw [startsEntryTail, here] at h
      split at h
      · next he =>
        cases he
        decide
      · rw [startsPragmaOrValue, here] at h
        split at h
        · next he =>
          cases he
          decide
        · rw [startsValue, here] at h
          split at h
          · next he =>
            cases he
            decide
          · next he =>
            cases he
            decide
          · cases h

theorem dropStar_split (t : Text) :
    ∃ star, t = star ++ dropStar t ∧ (star = [] ∨ star = ['*']) := by
  unfold dropStar
  split
  · exact ⟨['*'], rfl, .inr rfl⟩
  · exact ⟨[], rfl, .inl rfl⟩

/-- Only the star behind the name is dropped. -/
theorem dropStar_append {star : Text} (h : star = [] ∨ star = ['*'])
    (other : ∀ c ∈ t.head?, c ≠ '*') : dropStar (star ++ t) = t := by
  rcases h with rfl | rfl
  · cases t with
    | nil => rfl
    | cons c r => simp [dropStar, other c rfl]
  · rfl

/-- The parts of an entry behind its star are those that the readers look for. -/
theorem entryForm_iff (h : '\n' ∉ s) :
    EntryForm s ↔ ∃ name star tail : Text, s = name ++ (star ++ tail) ∧ IsName name ∧
      (star = [] ∨ star = ['*']) ∧ startsEntryTail tail = true := by
  constructor
  · rintro ⟨named, marked, blank, typed, blank', tagged, blank'', value⟩
    simp only [List.append_assoc] at h ⊢
    have unbroken := fun hm => h (List.mem_append_right _ (List.mem_append_right _
      (List.mem_append_right _ (List.mem_append_right _ hm))))
    refine ⟨_, _, _, rfl, named, marked, startsEntryTail_iff.2 ⟨_, _, _, rfl, blank, typed, ?_⟩⟩
    refine (startsPragmaOrValue_iff unbroken).2 ⟨_, _, _, rfl, blank', tagged, ?_⟩
    exact startsValue_iff.2 ⟨_, _, _, rfl, blank'', value⟩
  · rintro ⟨name, star, tail, rfl, named, marked, entry⟩
    obtain ⟨gap, parameters, behind, rfl, blank, typed, value⟩ := startsEntryTail_iff.1 entry
    have unbroken : '\n' ∉ behind := fun hm => h (by simp [hm])
    obtain ⟨gap', pragma, behind, rfl, blank', tagged, value⟩ :=
      (startsPragmaOrValue_iff unbroken).1 value
    obtain ⟨gap'', sign, rest, rfl, blank'', value⟩ := startsValue_iff.1 value
    simpa using EntryForm.intro named marked blank typed blank' tagged blank'' value

/-- **The reader of entries accepts its grammar.** A text without line feed is an entry exactly if
no comment stands in it and it can be taken apart into the parts of one, in whatever way. -/
theorem isEntry_iff {s : Text} (h : '\n' ∉ s) : isEntry s = true ↔ '#' ∉ s ∧ EntryForm s := by
  rw [isEntry, Bool.and_eq_true, entryForm_iff h]
  refine and_congr (by simp) ⟨fun entry => ?_, ?_⟩
  · split at entry
    · next rest read =>
      obtain ⟨name, named, rfl⟩ := name_of_afterName read
      obtain ⟨star, split, marked⟩ := dropStar_split rest
      exact ⟨name, star, dropStar rest, by rw [← split], named, marked, entry⟩
    · cases entry
  · rintro ⟨name, star, tail, rfl, named, marked, entry⟩
    have first := startsEntryTail_first entry
    have ends : EndsWord (star ++ tail) := by
      rcases marked with rfl | rfl
      · exact fun c hc => (first c hc).1
      · rintro _ ⟨⟩
        decide
    rw [named.afterName ends]
    show startsEntryTail (dropStar (star ++ tail)) = true
    rw [dropStar_append marked fun c hc => (first c hc).2]
    exact entry

/-- The brackets before the star belong to the name, and the first end of a pragma is inside. -/
theorem isEntry_iff_nestedPragma :
    let s := "`[]=`*[T, x] \x7b.raises: \x7b.a.\x7d.\x7d = object".toList
    '\n' ∉ s ∧ isEntry s = true ∧ '#' ∉ s ∧ EntryForm s := by
  intro s
  have unbroken : '\n' ∉ s := by decide
  have read : isEntry s = true := by decide
  exact ⟨unbroken, read, (isEntry_iff unbroken).1 read⟩

end NimMarkdown.Line
