import NimMarkdown.Line.Name

/-!
# Entries of a section

An entry of a `const`, `let`, `var` or `type` section is a name, maybe with the
export marker, type parameters in square brackets and a pragma in braces, and
then `:` or `=`. A pragma may end at any `.` and closing brace that lets the rest fit.
-/

namespace NimMarkdown.Line

/-- `:` or `=` behind blanks. -/
def startsValue (t : Text) : Bool :=
  match t.stripLeft with
  | ':' :: _ => true
  | '=' :: _ => true
  | _ => false

/-- Some end of the pragma that `t` stands in is followed by `:` or `=`. -/
def pragmaThenValue : Text → Bool
  | [] => false
  | c :: r =>
    (c == '.' &&
      match r with
      | '}' :: rest => startsValue rest
      | _ => false) ||
    (c != '\n' && pragmaThenValue r)

/-- A pragma, if there is one, and then `:` or `=`. -/
def startsPragmaOrValue (t : Text) : Bool :=
  match t.stripLeft with
  | '{' :: '.' :: body => pragmaThenValue body
  | rest => startsValue rest

/-- Type parameters, if there are any, and what follows them. -/
def startsEntryTail (t : Text) : Bool :=
  match t.stripLeft with
  | '[' :: body =>
    match body.dropWhile (· != ']') with
    | _ :: rest => startsPragmaOrValue rest
    | [] => false
  | rest => startsPragmaOrValue rest

/-- Without the export marker at the start. -/
def dropStar : Text → Text
  | '*' :: r => r
  | t => t

/-- The text is an entry such as `Name* = value`, `name*: T` or `Foo*[T] = object`. -/
def isEntry (text : Text) : Bool :=
  !text.contains '#' &&
    match afterName text with
    | some rest => startsEntryTail (dropStar rest)
    | none => false

end NimMarkdown.Line
