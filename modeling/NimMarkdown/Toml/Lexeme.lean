import NimMarkdown.Settings.Value
import NimMarkdown.Text.Digit
import NimMarkdown.Text.Integer

/-!
# Lexemes of TOML

The parts of a TOML document that hold no other values: filler, keys, strings,
numbers, dates and times. Each reader takes the text at its lexeme and returns
what it has read with the text behind it. Line endings are line feeds here.
-/

namespace NimMarkdown.Toml

inductive Error where
  | malformed
  /-- A decimal integer has too many digits to be converted. -/
  | tooManyDigits (count : Nat)
  /-- Arrays and inline tables are nested too deeply. -/
  | tooDeep
  deriving DecidableEq, Repr

def isControl (c : Char) : Bool := c.toNat < 32 || c.toNat == 127

/-- A character that may not stand in a comment or in a string on one line. -/
def isIllegal (c : Char) : Bool := isControl c && c != '\t'

/-- A character that may not stand in a string over several lines. -/
def isIllegalInLines (c : Char) : Bool := isIllegal c && c != '\n'

def isSpace (c : Char) : Bool := c == ' ' || c == '\t'

def skipSpaces (t : Text) : Text := t.dropWhile isSpace

/-! ## Filler -/

/-- The text behind a comment, if there is one: its line feed and what follows. -/
def skipComment (t : Text) : Except Error Text :=
  match t with
  | '#' :: rest =>
    if (rest.takeWhile (· != '\n')).any isIllegal then .error .malformed
    else .ok (rest.dropWhile (· != '\n'))
  | _ => .ok t

/-- The text behind spaces, line feeds and comments. -/
def skipFiller : (inComment : Bool) → Text → Except Error Text
  | _, [] => .ok []
  | true, c :: rest =>
    if c == '\n' then skipFiller false rest
    else if isIllegal c then .error .malformed
    else skipFiller true rest
  | false, c :: rest =>
    if isSpace c || c == '\n' then skipFiller false rest
    else if c == '#' then skipFiller true rest
    else .ok (c :: rest)

/-! ## Strings -/

def hexValue? (c : Char) : Option Nat :=
  let n := c.toNat
  if 48 ≤ n && n ≤ 57 then some (n - 48)
  else if 65 ≤ n && n ≤ 70 then some (n - 55)
  else if 97 ≤ n && n ≤ 102 then some (n - 87)
  else none

/-- The character with a hexadecimal number, if there is one. -/
def hexChar? (digits : Text) : Option Char := do
  let values ← digits.mapM hexValue?
  let n := values.foldl (fun n d => 16 * n + d) 0
  if n.isValidChar then some (Char.ofNat n) else none

/-- The character that stands behind a backslash for another one. -/
def escaped? : Char → Option Char
  | 'b' => some '\x08'
  | 't' => some '\t'
  | 'n' => some '\n'
  | 'f' => some '\x0c'
  | 'r' => some '\r'
  | '"' => some '"'
  | '\\' => some '\\'
  | _ => none

/-- The character that an escape stands for, and the text behind it; the text is the one
behind the backslash. -/
def escape? : Text → Option (Char × Text)
  | 'u' :: rest => (hexChar? (rest.take 4)).bind fun c =>
      if 4 ≤ rest.length then some (c, rest.drop 4) else none
  | 'U' :: rest => (hexChar? (rest.take 8)).bind fun c =>
      if 8 ≤ rest.length then some (c, rest.drop 8) else none
  | c :: rest => (escaped? c).map (·, rest)
  | [] => none

theorem escape?_length {t rest : Text} {c : Char} (h : escape? t = some (c, rest)) :
    rest.length < t.length := by
  unfold escape? at h
  split at h
  · obtain ⟨_, _, h⟩ := Option.bind_eq_some_iff.1 h
    split at h
    · cases h
      simp only [List.length_drop, List.length_cons]
      omega
    · cases h
  · obtain ⟨_, _, h⟩ := Option.bind_eq_some_iff.1 h
    split at h
    · cases h
      simp only [List.length_drop, List.length_cons]
      omega
    · cases h
  · obtain ⟨_, _, h⟩ := Option.map_eq_some_iff.1 h
    cases h
    simp
  · cases h

/-- A string on one line, up to its closing double quote. -/
def basicString (t : Text) : Except Error (Text × Text) :=
  match t with
  | [] => .error .malformed
  | '"' :: rest => .ok ([], rest)
  | '\\' :: rest =>
    match _h : escape? rest with
    | none => .error .malformed
    | some (c, behind) => (basicString behind).map fun r => (c :: r.1, r.2)
  | c :: rest =>
    if isIllegal c then .error .malformed
    else (basicString rest).map fun r => (c :: r.1, r.2)
termination_by t.length
decreasing_by
  · have := escape?_length (by assumption)
    simp only [List.length_cons]
    omega
  · simp

/-- The text behind a backslash that ends a line, and the blanks and line feeds that
follow; `none` if the backslash does not end its line. -/
def lineContinuation? (t : Text) : Option Text :=
  match skipSpaces t with
  | '\n' :: rest => some (rest.dropWhile fun c => isSpace c || c == '\n')
  | _ => none

theorem length_dropWhile_le (p : Char → Bool) (t : Text) :
    (t.dropWhile p).length ≤ t.length :=
  (List.dropWhile_suffix p).length_le

theorem lineContinuation?_length {t rest : Text} (h : lineContinuation? t = some rest) :
    rest.length ≤ t.length := by
  unfold lineContinuation? at h
  split at h
  · next r hr =>
    cases h
    have h1 := length_dropWhile_le (fun c => isSpace c || c == '\n') r
    have h2 := length_dropWhile_le isSpace t
    unfold skipSpaces at hr
    rw [hr] at h2
    simp at h2
    omega
  · cases h

/-- A string over several lines, up to the three double quotes that close it. -/
def basicLines (t : Text) : Except Error (Text × Text) :=
  match t with
  | [] => .error .malformed
  | '"' :: '"' :: '"' :: rest => .ok ([], rest)
  | '\\' :: rest =>
    match _h : lineContinuation? rest with
    | some behind => basicLines behind
    | none =>
      match _h : escape? rest with
      | none => .error .malformed
      | some (c, behind) => (basicLines behind).map fun r => (c :: r.1, r.2)
  | c :: rest =>
    if isIllegalInLines c then .error .malformed
    else (basicLines rest).map fun r => (c :: r.1, r.2)
termination_by t.length
decreasing_by
  · have := lineContinuation?_length (by assumption)
    simp only [List.length_cons]
    omega
  · have := escape?_length (by assumption)
    simp only [List.length_cons]
    omega
  · simp

/-- A string without escapes on one line, up to its closing single quote. -/
def literalString (t : Text) : Except Error (Text × Text) :=
  let body := t.takeWhile (· != '\'')
  match t.dropWhile (· != '\'') with
  | _ :: rest => if body.any isIllegal then .error .malformed else .ok (body, rest)
  | [] => .error .malformed

/-- A string without escapes over several lines, up to the three single quotes that close
it. -/
def literalLines (t : Text) : Except Error (Text × Text) :=
  match Text.cutAt ['\'', '\'', '\''] t with
  | some (body, rest) =>
    if body.any isIllegalInLines then .error .malformed else .ok (body, rest)
  | none => .error .malformed

/-- Up to two more quotes behind the closing ones belong to the string. -/
def closeLines (quote : Char) (r : Text × Text) : Text × Text :=
  match r.2 with
  | c :: d :: rest =>
    if c == quote && d == quote then (r.1 ++ [quote, quote], rest)
    else if c == quote then (r.1 ++ [quote], d :: rest)
    else r
  | [c] => if c == quote then (r.1 ++ [quote], []) else r
  | [] => r

/-- A line feed behind the opening quotes does not belong to the string. -/
def dropLineFeed : Text → Text
  | '\n' :: rest => rest
  | t => t

/-! ## Keys -/

def isBareKeyChar (c : Char) : Bool :=
  let n := c.toNat
  (48 ≤ n && n ≤ 57) || (65 ≤ n && n ≤ 90) || (97 ≤ n && n ≤ 122) || c == '-' || c == '_'

/-- A key may begin with the character. -/
def startsKey (c : Char) : Bool := isBareKeyChar c || c == '"' || c == '\''

def keyPart (t : Text) : Except Error (Text × Text) :=
  match t with
  | '"' :: rest => basicString rest
  | '\'' :: rest => literalString rest
  | c :: _ =>
    if isBareKeyChar c then .ok (t.takeWhile isBareKeyChar, t.dropWhile isBareKeyChar)
    else .error .malformed
  | [] => .error .malformed

/-- The parts of a dotted key, and the text behind the spaces that follow it; `parts` bounds
their number. -/
def keyParts : (parts : Nat) → Text → Except Error (List Text × Text)
  | 0, _ => .error .malformed
  | parts + 1, t => do
    let (part, rest) ← keyPart t
    match skipSpaces rest with
    | '.' :: rest =>
      let (more, rest) ← keyParts parts (skipSpaces rest)
      return (part :: more, rest)
    | rest => return ([part], rest)

def key (t : Text) : Except Error (List Text × Text) := keyParts (t.length + 1) t

/-! ## Numbers -/

/-- The rest of a run of digits, with single underscores between them. -/
def moreDigits (isDigit : Char → Bool) : Text → Text × Text
  | [] => ([], [])
  | '_' :: c :: rest =>
    if isDigit c then
      let r := moreDigits isDigit rest
      (c :: r.1, r.2)
    else ([], '_' :: c :: rest)
  | c :: rest =>
    if isDigit c then
      let r := moreDigits isDigit rest
      (c :: r.1, r.2)
    else ([], c :: rest)

/-- A run of digits, with single underscores between them. -/
def digitRun (isDigit : Char → Bool) : Text → Option (Text × Text)
  | c :: rest =>
    if isDigit c then
      let r := moreDigits isDigit rest
      some (c :: r.1, r.2)
    else none
  | [] => none

def isDecimal (c : Char) : Bool := 48 ≤ c.toNat && c.toNat ≤ 57

/-- The number with the given digits in a base. -/
def numberOf (base : Nat) (digits : Text) : Nat :=
  digits.foldl (fun n c => base * n + (hexValue? c).getD 0) 0

/-- The base that a letter behind a zero names, with its digits. -/
def baseOf : Char → Option (Nat × (Char → Bool))
  | 'x' => some (16, fun c => (hexValue? c).isSome)
  | 'o' => some (8, fun c => 48 ≤ c.toNat && c.toNat ≤ 55)
  | 'b' => some (2, fun c => c == '0' || c == '1')
  | _ => none

/-- An integer in another base than ten. -/
def basedInteger? : Text → Option (Nat × Text)
  | '0' :: letter :: rest => do
    let (base, isDigit) ← baseOf letter
    let (digits, rest) ← digitRun isDigit rest
    return (numberOf base digits, rest)
  | _ => none

/-- The text behind a sign, if there is one. -/
def skipSign : Text → Text
  | '+' :: rest => rest
  | '-' :: rest => rest
  | t => t

/-- The integer part of a decimal number: zero, or digits that do not begin with it. -/
def wholePart? : Text → Option (Text × Text)
  | '0' :: rest => some (['0'], rest)
  | t => digitRun isDecimal t

/-- The text behind the fraction, if there is one. -/
def skipFraction (t : Text) : Text :=
  match t with
  | '.' :: rest => ((digitRun isDecimal rest).map Prod.snd).getD t
  | _ => t

/-- The text behind the exponent, if there is one. -/
def skipExponent (t : Text) : Text :=
  match t with
  | c :: rest =>
    if c == 'e' || c == 'E' then
      ((digitRun isDecimal (skipSign rest)).map Prod.snd).getD t
    else t
  | [] => t

/-- The part of a text before its end `rest`. -/
def before (t rest : Text) : Text := t.take (t.length - rest.length)

/-- An integer or a float, if the text begins with one. -/
def number? (t : Text) : Option (Except Error (Value × Text)) :=
  match basedInteger? t with
  | some (n, rest) => some (.ok (.integer n, rest))
  | none =>
    (wholePart? (skipSign t)).map fun (digits, rest) =>
      let behind := skipExponent (skipFraction rest)
      if behind.length < rest.length then .ok (.float (before t behind), behind)
      else if digits.length > Text.maxDigits then .error (.tooManyDigits digits.length)
      else
        let n : Int := numberOf 10 digits
        .ok (.integer (if t.head? == some '-' then -n else n), rest)

def specialFloat? (t : Text) : Option (Value × Text) :=
  let name := (skipSign t).take 3
  if name == "inf".toList || name == "nan".toList then
    let rest := (skipSign t).drop 3
    some (.float (before t rest), rest)
  else none

/-! ## Dates and times -/

/-- The number with two decimal digits. -/
def twoDigits? (a b : Char) : Option Nat :=
  if isDecimal a && isDecimal b then some (numberOf 10 [a, b]) else none

/-- The text behind an hour and a minute. -/
def hourMinute? : Text → Option Text
  | a :: b :: ':' :: c :: d :: rest => do
    let hour ← twoDigits? a b
    let minute ← twoDigits? c d
    if hour < 24 && minute < 60 then some rest else none
  | _ => none

def time? (t : Text) : Option Text := do
  match ← hourMinute? t with
  | ':' :: a :: b :: rest =>
    let second ← twoDigits? a b
    if second < 60 then
      match rest with
      | '.' :: c :: more =>
        if isDecimal c then some (more.dropWhile isDecimal) else some rest
      | _ => some rest
    else none
  | _ => none

/-- The text behind the offset of a time, if there is one. -/
def skipOffset (t : Text) : Text :=
  match t with
  | 'Z' :: rest => rest
  | 'z' :: rest => rest
  | '+' :: rest => (hourMinute? rest).getD t
  | '-' :: rest => (hourMinute? rest).getD t
  | _ => t

def isLeapYear (year : Nat) : Bool := year % 4 == 0 && (year % 100 != 0 || year % 400 == 0)

def daysIn (year month : Nat) : Nat :=
  if month == 2 then (if isLeapYear year then 29 else 28)
  else if month == 4 || month == 6 || month == 9 || month == 11 then 30
  else 31

structure Day where
  year : Nat
  month : Nat
  day : Nat
  deriving DecidableEq, Repr

def Day.isValid (d : Day) : Bool := 1 ≤ d.year && d.day ≤ daysIn d.year d.month

/-- A day as it is written, whether the calendar has it or not. -/
def day? : Text → Option (Day × Text)
  | a :: b :: c :: d :: '-' :: e :: f :: '-' :: g :: h :: rest => do
    let century ← twoDigits? a b
    let year ← twoDigits? c d
    let month ← twoDigits? e f
    let day ← twoDigits? g h
    if 1 ≤ month && month ≤ 12 && 1 ≤ day && day ≤ 31 then
      some (⟨100 * century + year, month, day⟩, rest)
    else none
  | _ => none

/-- The text behind the time of day that may follow a day. -/
def timeBehindDay? : Text → Option Text
  | c :: rest =>
    if c == 'T' || c == 't' || c == ' ' then (time? rest).map skipOffset else none
  | [] => none

def dateOrTime? (t : Text) : Option (Except Error (Value × Text)) :=
  match day? t with
  | some (day, rest) =>
    if day.isValid then
      match timeBehindDay? rest with
      | some behind => some (.ok (.dateTime (before t behind), behind))
      | none => some (.ok (.date (before t rest), rest))
    else some (.error .malformed)
  | none => (time? t).map fun rest => .ok (.time (before t rest), rest)

end NimMarkdown.Toml
