import NimMarkdown.Line.Export
import NimMarkdown.Proofs.Names
import NimMarkdown.Proofs.SectionElements

/-!
# Products

The star of a product is no export marker, but it is read as one where a name is glued to
its left and a parenthesis to its right, as in `width*(height)`: there it looks like the
star of `area*(width: int)`. `Arithmetic` are the expressions made of names, numbers,
sums, products and parentheses, with the spaces between their parts. The star of such an
expression counts as a marker exactly where it is glued like this
(`Arithmetic.exportedAfter_text`), wherever it stands: no other place of the line begins a
marked name. So a constant with such a value is exported exactly then
(`Source.outline_arithmetic`).
-/

namespace NimMarkdown

inductive Operator where
  | plus | times
  deriving DecidableEq

def Operator.sign : Operator → Char
  | plus => '+'
  | times => '*'

/-- An expression as it is written, with the number of spaces on the left and on the right
of an operator or inside of parentheses. How it is grouped does not matter to its text, so
no rule of precedence is kept. -/
inductive Arithmetic where
  | name (n : Identifier)
  | number (whole : Numeral) (fraction : Option Numeral)
  | operation (operator : Operator) (a b : Arithmetic) (left right : Nat)
  | parens (e : Arithmetic) (left right : Nat)

def spaces (count : Nat) : Text := List.replicate count ' '

namespace Arithmetic

def text : Arithmetic → Text
  | name n => n.text
  | number whole none => whole.text
  | number whole (some fraction) => whole.text ++ '.' :: fraction.text
  | operation operator a b left right =>
    a.text ++ (spaces left ++ operator.sign :: (spaces right ++ b.text))
  | parens e left right => '(' :: (spaces left ++ (e.text ++ (spaces right ++ [')'])))

def endsInName : Arithmetic → Bool
  | name _ => true
  | number _ _ => false
  | operation _ _ b _ _ => b.endsInName
  | parens _ _ _ => false

def beginsInParens : Arithmetic → Bool
  | name _ => false
  | number _ _ => false
  | operation _ a _ _ _ => a.beginsInParens
  | parens _ _ _ => true

/-- Some product has a name glued to the left of its star, and a parenthesis to the right. -/
def hasGluedStar : Arithmetic → Bool
  | name _ => false
  | number _ _ => false
  | operation operator a b left right =>
    a.hasGluedStar || b.hasGluedStar ||
      (operator == .times && left == 0 && right == 0 && a.endsInName && b.beginsInParens)
  | parens e _ _ => e.hasGluedStar

end Arithmetic

/-! ## Names at any place of a text -/

namespace Line

variable {rest : Text} {c : Char}

/-- A character in which no name begins, and which belongs to no word. -/
def isSign (c : Char) : Bool := !isWord c && c != '\x60'

/-- The text does not go on with a word. -/
def Apart (rest : Text) : Prop := ∀ c ∈ rest.head?, isSign c = true

/-- The text begins with a star that marks the name before it. -/
def beginsMarker (rest : Text) : Bool :=
  match rest with
  | '*' :: behind => followsMarker behind
  | _ => false

theorem apart_cons (h : isSign c = true) (r : Text) : Apart (c :: r) := by
  rintro _ ⟨⟩
  exact h

theorem exportedAfter_sign (h : isSign c = true) (previous : Option Char) (r : Text) :
    exportedAfter previous (c :: r) = exportedAfter none r := by
  rw [isSign, Bool.and_eq_true, Bool.not_eq_true', bne_iff_ne] at h
  rw [exportedAfter, startsExported_cons (isNameStart_of_not_isWord h.1) h.2, Bool.and_false,
    Bool.false_or, exportedAfter_some h.1]

theorem exportedAfter_signs {signs : Text} (h : ∀ c ∈ signs, isSign c = true) (r : Text) :
    exportedAfter none (signs ++ r) = exportedAfter none r := by
  induction signs with
  | nil => rfl
  | cons c signs ih =>
    rw [List.cons_append, exportedAfter_sign (h c List.mem_cons_self)]
    exact ih fun d hd => h d (List.mem_cons_of_mem _ hd)

theorem exportedAfter_apart (h : Apart rest) (previous : Option Char) :
    exportedAfter previous rest = exportedAfter none rest := by
  cases rest with
  | nil => rfl
  | cons c r => rw [exportedAfter_sign (h c rfl), exportedAfter_sign (h c rfl)]

/-- Inside of a word no name begins. -/
theorem exportedAfter_inside {w : Text} (hw : ∀ c ∈ w, isWord c = true) (h : Apart rest)
    (hc : isWord c = true) : exportedAfter (some c) (w ++ rest) = exportedAfter none rest := by
  induction w generalizing c with
  | nil => exact exportedAfter_apart h (some c)
  | cons d w ih =>
    rw [List.forall_mem_cons] at hw
    rw [List.cons_append, exportedAfter, Option.any_some, hc, Bool.not_true, Bool.false_and,
      Bool.false_or]
    exact ih hw.2 hw.1

theorem afterName_identifier (n : Identifier) (h : Apart rest) :
    afterName (n.text ++ rest) = some rest :=
  (IsName.identifier n).afterName fun c hc => by
    have sign := h c hc
    rw [isSign, Bool.and_eq_true, Bool.not_eq_true'] at sign
    exact sign.1

theorem exportedAfter_identifier (n : Identifier) (h : Apart rest) :
    exportedAfter none (n.text ++ rest) = (beginsMarker rest || exportedAfter none rest) := by
  have starts : startsExported (n.text ++ rest) = beginsMarker rest := by
    rw [startsExported, afterName_identifier n h]
    cases rest with
    | nil => rfl
    | cons c r =>
      by_cases star : c = '*'
      · subst star
        rfl
      · simp [beginsMarker, star]
  rw [← starts, Word.text, List.cons_append, exportedAfter, Option.any_none, Bool.not_false,
    Bool.true_and, exportedAfter_inside (List.all_eq_true.1 n.rest_continues) h
      (isWord_of_isNameStart n.first_starts)]

/-- A digit is no first character of a name. -/
theorem digit_cases (h : isAsciiDigit c = true) :
    isWord c = true ∧ isNameStart c = false ∧ c ≠ '\x60' := by
  simp only [isAsciiDigit, Bool.and_eq_true, decide_eq_true_eq] at h
  have code {d : Char} (hd : c.toNat ≠ d.toNat) : c ≠ d := fun he => hd (congrArg Char.toNat he)
  refine ⟨?_, ?_, code (by simp; omega)⟩
  · rw [isWord, if_pos (by omega)]
    simp [isAsciiDigit, h]
  · simp only [isNameStart, isAsciiLetter, Bool.or_eq_false_iff, Bool.and_eq_false_iff,
      decide_eq_false_iff_not, beq_eq_false_iff_ne]
    exact ⟨by omega, code (by simp; omega)⟩

theorem exportedAfter_numeral (n : Numeral) (h : Apart rest) :
    exportedAfter none (n.text ++ rest) = exportedAfter none rest := by
  obtain ⟨word, name, quote⟩ := digit_cases n.first_starts
  rw [Word.text, List.cons_append, exportedAfter, startsExported_cons name quote, Bool.and_false,
    Bool.false_or, exportedAfter_inside (List.all_eq_true.1 n.rest_continues) h word]

end Line

/-! ## Stars of expressions -/

theorem isSign_of_mem_spaces {count : Nat} {c : Char} (h : c ∈ spaces count) :
    Line.isSign c = true := by
  rw [List.eq_of_mem_replicate h]
  decide

theorem isBlankText_spaces (count : Nat) : Text.isBlankText (spaces count) = true :=
  Text.isBlankText_iff.2 fun c hc => by
    rw [List.eq_of_mem_replicate hc]
    decide

theorem apart_spaces (count : Nat) {rest : Text} (h : Line.Apart rest) :
    Line.Apart (spaces count ++ rest) := by
  cases count with
  | zero => exact h
  | succ count => exact Line.apart_cons (by decide) _

/-- A character that may stand in a constant with its value. -/
def isPlain (c : Char) : Bool := isWord c || [' ', '+', '*', '(', ')', '.', '='].contains c

namespace Word

variable {starts : Char → Bool}

theorem isPlain_of_mem (w : Word starts) (h : ∀ {c}, starts c = true → isWord c = true) :
    ∀ c ∈ w.text, isPlain c = true := fun c hc => by
  rw [isPlain, w.isWord_of_mem h c hc, Bool.true_or]

theorem stripRight (w : Word starts) (h : ∀ {c}, starts c = true → isWord c = true) :
    w.text.stripRight = w.text :=
  dropEndWhile_eq_self fun c hc => isBlank_of_isWord (w.isWord_of_mem h c hc)

end Word

namespace Arithmetic

open Line

variable {e : Arithmetic} {rest : Text}

theorem text_begins (e : Arithmetic) : ∃ c r, e.text = c :: r ∧ isBlank c = false ∧
    (e.beginsInParens = true ∧ c = '(' ∨ e.beginsInParens = false ∧ isWord c = true) := by
  induction e with
  | name n =>
    have word := isWord_of_isNameStart n.first_starts
    exact ⟨_, _, rfl, isBlank_of_isWord word, .inr ⟨rfl, word⟩⟩
  | number whole fraction =>
    have word := (digit_cases whole.first_starts).1
    cases fraction <;> exact ⟨_, _, rfl, isBlank_of_isWord word, .inr ⟨rfl, word⟩⟩
  | operation operator a b left right iha _ =>
    obtain ⟨c, r, he, begins⟩ := iha
    exact ⟨c, _, by rw [text, he, List.cons_append], begins⟩
  | parens e left right _ => exact ⟨_, _, rfl, by decide, .inl ⟨rfl, rfl⟩⟩

/-- Behind the star of a product, only a parenthesis that is glued to it makes a marker. -/
theorem followsMarker_text (e : Arithmetic) (right : Nat) (rest : Text) :
    followsMarker (spaces right ++ (e.text ++ rest)) = (right == 0 && e.beginsInParens) := by
  obtain ⟨c, r, he, solid, begins⟩ := e.text_begins
  have other {d : Char} (sign : isWord d = false) (word : isWord c = true) : c ≠ d := by
    rintro rfl
    rw [word] at sign
    cases sign
  have value : c ≠ '=' := by
    obtain ⟨-, rfl⟩ | ⟨-, word⟩ := begins
    · decide
    · exact other (by decide) word
  have operand := Text.stripLeft_cons (isBlankText_spaces right) solid (r ++ rest)
  rw [he, List.cons_append]
  cases right with
  | succ right =>
    rw [spaces, List.replicate_succ, List.cons_append] at operand ⊢
    simp [followsMarker, operand, value]
  | zero =>
    rw [spaces, List.replicate_zero, List.nil_append] at operand ⊢
    obtain ⟨parens, rfl⟩ | ⟨noParens, word⟩ := begins
    · simp [followsMarker, parens]
    · simp [followsMarker, operand, noParens, value, other (d := '(') (by decide) word,
        other (d := ':') (by decide) word, other (d := '[') (by decide) word,
        other (d := '\x7b') (by decide) word]

theorem beginsMarker_operation (operator : Operator) (b : Arithmetic) (left right : Nat)
    (rest : Text) :
    beginsMarker (spaces left ++ operator.sign :: (spaces right ++ (b.text ++ rest))) =
      (operator == .times && left == 0 && right == 0 && b.beginsInParens) := by
  cases left with
  | succ left => simp [beginsMarker, spaces, List.replicate_succ]
  | zero =>
    cases operator with
    | plus => rfl
    | times => exact followsMarker_text b right rest

/-- A marked name is read in an expression that has a glued star, and at the end of one that ends in
a name, if the text behind it begins with a marker. -/
theorem exportedAfter_text (e : Arithmetic) (h : Apart rest) :
    exportedAfter none (e.text ++ rest) =
      (e.hasGluedStar || e.endsInName && beginsMarker rest || exportedAfter none rest) := by
  induction e generalizing rest with
  | name n => exact exportedAfter_identifier n h
  | number whole fraction =>
    cases fraction with
    | none => exact exportedAfter_numeral whole h
    | some fraction =>
      have point : Apart ('.' :: (fraction.text ++ rest)) := apart_cons (by decide) _
      rw [text, List.append_assoc, List.cons_append, exportedAfter_numeral whole point,
        exportedAfter_sign (by decide), exportedAfter_numeral fraction h]
      rfl
  | operation operator a b left right iha ihb =>
    have sign : isSign operator.sign = true := by cases operator <;> decide
    -- To the name at the end of `a`, the operator is the text behind.
    have behind : Apart (spaces left ++ operator.sign :: (spaces right ++ (b.text ++ rest))) :=
      apart_spaces left (apart_cons sign _)
    have skipped : exportedAfter none
        (spaces left ++ operator.sign :: (spaces right ++ (b.text ++ rest))) =
          exportedAfter none (b.text ++ rest) := by
      rw [exportedAfter_signs fun c => isSign_of_mem_spaces, exportedAfter_sign sign,
        exportedAfter_signs fun c => isSign_of_mem_spaces]
    simp only [text, List.append_assoc, List.cons_append]
    rw [iha behind, skipped, ihb h, beginsMarker_operation, hasGluedStar, endsInName]
    cases a.hasGluedStar <;> cases a.endsInName <;> cases b.hasGluedStar <;> simp [Bool.or_assoc]
  | parens e left right ih =>
    have close : isSign ')' = true := by decide
    have behind : Apart (spaces right ++ ')' :: rest) := apart_spaces right (apart_cons close _)
    have unmarked : beginsMarker (spaces right ++ ')' :: rest) = false := by
      cases right <;> rfl
    simp only [text, List.append_assoc, List.cons_append, List.nil_append]
    rw [exportedAfter_sign (by decide), exportedAfter_signs fun c => isSign_of_mem_spaces,
      ih behind, unmarked, exportedAfter_signs fun c => isSign_of_mem_spaces,
      exportedAfter_sign close, hasGluedStar, endsInName]
    simp

/-! ## Constants with a value -/

theorem isPlain_of_mem_text (e : Arithmetic) : ∀ c ∈ e.text, isPlain c = true := by
  have blanks (count : Nat) : ∀ c ∈ spaces count, isPlain c = true := fun c hc => by
    rw [List.eq_of_mem_replicate hc]
    decide
  induction e with
  | name n => exact n.isPlain_of_mem isWord_of_isNameStart
  | number whole fraction =>
    have digits (n : Numeral) : ∀ c ∈ n.text, isPlain c = true :=
      n.isPlain_of_mem fun h => (digit_cases h).1
    cases fraction with
    | none => exact digits whole
    | some fraction =>
      exact List.forall_mem_append.2
        ⟨digits whole, List.forall_mem_cons.2 ⟨by decide, digits fraction⟩⟩
  | operation operator a b left right iha ihb =>
    have sign : isPlain operator.sign = true := by cases operator <;> decide
    simp only [text, List.forall_mem_append, List.forall_mem_cons]
    exact ⟨iha, blanks left, sign, blanks right, ihb⟩
  | parens e left right ih =>
    simp only [text, List.forall_mem_append, List.forall_mem_cons]
    exact ⟨by decide, blanks left, ih, blanks right, by decide, nofun⟩

theorem isBlankText_text (e : Arithmetic) : e.text.isBlankText = false := by
  obtain ⟨c, r, he, solid, -⟩ := e.text_begins
  rw [he, Text.isBlankText, List.all_cons, solid]
  rfl

theorem stripRight_text (e : Arithmetic) : e.text.stripRight = e.text := by
  have behind (before : Text) {u : Text} (filled : u.isBlankText = false)
      (closed : u.stripRight = u) : Text.stripRight (before ++ u) = before ++ u := by
    rw [Text.stripRight_append before filled, closed]
  induction e with
  | name n => exact n.stripRight isWord_of_isNameStart
  | number whole fraction =>
    have digits (n : Numeral) : n.text.stripRight = n.text :=
      n.stripRight fun h => (digit_cases h).1
    cases fraction with
    | none => exact digits whole
    | some fraction =>
      have filled : fraction.text.isBlankText = false := isBlankText_text (.number fraction none)
      have split : whole.text ++ '.' :: fraction.text = whole.text ++ ['.'] ++ fraction.text := by
        simp
      rw [text, split]
      exact behind _ filled (digits fraction)
  | operation operator a b left right _ ihb =>
    have split : text (.operation operator a b left right) =
        a.text ++ spaces left ++ operator.sign :: spaces right ++ b.text := by simp [text]
    rw [split]
    exact behind _ b.isBlankText_text ihb
  | parens e left right _ =>
    have split : text (.parens e left right) =
        '(' :: (spaces left ++ e.text ++ spaces right) ++ [')'] := by simp [text]
    rw [split]
    exact behind _ rfl rfl

end Arithmetic

def constKeyword : Identifier := ⟨'c', "onst".toList, rfl, rfl⟩

/-- What stands behind the keyword of a constant with its value. -/
def constEntry (n : Identifier) (e : Arithmetic) : Text := n.text ++ ' ' :: '=' :: ' ' :: e.text

/-- The line `const n = e`. -/
def constLine (n : Identifier) (e : Arithmetic) : Text := "const".toList ++ ' ' :: constEntry n e

section

open Line

variable (n : Identifier) (e : Arithmetic)

theorem isExported_constLine : isExported (constLine n e) = e.hasGluedStar := by
  have gap (r : Text) : Apart (' ' :: r) := apart_cons (by decide) r
  have last : Apart [] := nofun
  have nothing : beginsMarker [] = false := rfl
  calc isExported (constLine n e)
      = exportedAfter none (' ' :: constEntry n e) :=
        exportedAfter_identifier constKeyword (gap (constEntry n e))
    _ = exportedAfter none (n.text ++ ' ' :: '=' :: ' ' :: e.text) :=
        exportedAfter_sign (by decide) none _
    _ = exportedAfter none (' ' :: '=' :: ' ' :: e.text) := exportedAfter_identifier n (gap _)
    _ = exportedAfter none e.text := by
        rw [exportedAfter_sign (by decide), exportedAfter_sign (by decide),
          exportedAfter_sign (by decide)]
    _ = e.hasGluedStar := by
        rw [← List.append_nil e.text, e.exportedAfter_text last, nothing, exportedAfter,
          Bool.and_false, Bool.or_false, Bool.or_false]

theorem isPlain_of_mem_constEntry : ∀ c ∈ constEntry n e, isPlain c = true := by
  simp only [constEntry, List.forall_mem_append, List.forall_mem_cons]
  exact ⟨n.isPlain_of_mem isWord_of_isNameStart, by decide, by decide, by decide,
    e.isPlain_of_mem_text⟩

theorem constLine_unbroken : '\n' ∉ constLine n e ∧ '\r' ∉ constLine n e := by
  have keyword : ∀ c ∈ "const".toList, isPlain c = true :=
    constKeyword.isPlain_of_mem isWord_of_isNameStart
  have plain : ∀ c ∈ constLine n e, isPlain c = true :=
    List.forall_mem_append.2 ⟨keyword,
      List.forall_mem_cons.2 ⟨by decide, isPlain_of_mem_constEntry n e⟩⟩
  exact ⟨fun h => absurd (plain _ h) (by decide), fun h => absurd (plain _ h) (by decide)⟩

theorem stripRight_constEntry (before : Text) :
    Text.stripRight (before ++ constEntry n e) = before ++ constEntry n e := by
  have split : before ++ constEntry n e = before ++ n.text ++ [' ', '=', ' '] ++ e.text := by
    simp [constEntry]
  rw [split, Text.stripRight_append _ e.isBlankText_text, e.stripRight_text]

theorem isElement_constLine : IsElement .consts (constLine n e) := by
  have solid : isBlank n.first = false := isBlank_of_isWord (isWord_of_isNameStart n.first_starts)
  have trimmed : Text.strip (constEntry n e) = constEntry n e := by
    have here : Text.stripLeft (constEntry n e) = constEntry n e := Text.stripLeft_of_text solid _
    rw [Text.strip, here]
    exact stripRight_constEntry n e []
  have unmarked : '#' ∉ constEntry n e := fun h =>
    absurd (isPlain_of_mem_constEntry n e _ h) (by decide)
  refine ⟨"const".toList, constEntry n e, List.mem_cons_self, ?_, rfl⟩
  have behind : afterName (constEntry n e) = some (' ' :: '=' :: ' ' :: e.text) :=
    afterName_identifier n (apart_cons (by decide) _)
  rw [trimmed, isEntry, behind, Bool.and_eq_true]
  exact ⟨by simpa using unmarked, rfl⟩

theorem strip_constLine : Text.strip (constLine n e) = constLine n e := by
  have here : Text.stripLeft (constLine n e) = constLine n e := rfl
  rw [Text.strip, here]
  exact stripRight_constEntry n e ("const".toList ++ [' '])

end

namespace Source

/-- **A product is exported only where its star is glued.** A constant with an arithmetic value
carries the export marker exactly if a product in it has a name glued to the left of its star and a
parenthesis to the right. The source of this one line declares the constant; where only exported
elements are wanted, it does so exactly then. -/
theorem outline_arithmetic {settings : Settings} {options : Options}
    (valid : settings.validate = .ok options) (n : Identifier) (e : Arithmetic) :
    Line.isExported (constLine n e) = e.hasGluedStar ∧
    outline settings (constLine n e) = .ok
      { declarations := if options.on .exportedOnly && !e.hasGluedStar then []
          else [Scan.lineDeclaration (constLine n e) [] 1 .consts] } := by
  have exported := isExported_constLine n e
  have declared := outline_element valid (isElement_constLine n e) (constLine_unbroken n e)
  rw [exported, strip_constLine] at declared
  exact ⟨exported, declared⟩

def area : Identifier := ⟨'a', "rea".toList, rfl, rfl⟩

def width : Identifier := ⟨'w', "idth".toList, rfl, rfl⟩

def height : Identifier := ⟨'h', "eight".toList, rfl, rfl⟩

/-- The star of `10*(width)` has a number before it, the other ones have a space or no
parenthesis beside them. -/
def looseProducts : Arithmetic :=
  .operation .plus
    (.operation .times
      (.operation .times (.number ⟨'1', ['0'], rfl, rfl⟩ none) (.parens (.name width) 0 0) 0 0)
      (.name height) 0 0)
    (.operation .times (.name width) (.parens (.name height) 0 0) 1 0) 1 1

theorem outline_arithmetic_looseProducts :
    let only := Settings.byDefault.set (.toggle .exportedOnly) (.bool true)
    constLine area looseProducts = "const area = 10*(width)*height + width *(height)".toList ∧
      only.validate = .ok only.toOptions ∧
      Line.isExported (constLine area looseProducts) = false ∧
      outline only (constLine area looseProducts) = .ok {} := by
  intro only
  have valid : only.validate = .ok only.toOptions := rfl
  exact ⟨rfl, valid, outline_arithmetic valid area looseProducts⟩

/-- A name glued to the star of a product is taken for the name of an exported element. -/
theorem isExported_gluedProduct :
    let line := "const area = width*(height)".toList
    let only := Settings.byDefault.set (.toggle .exportedOnly) (.bool true)
    line = constLine area (.operation .times (.name width) (.parens (.name height) 0 0) 0 0) ∧
      Line.isExported line = true ∧
      ∃ o, outline only line = .ok o ∧ o.declarations.map Declaration.code = [[line]] := by
  refine ⟨rfl, by decide, _, rfl, ?_⟩
  decide +kernel

end Source

end NimMarkdown
