import NimMarkdown.Text.Word

/-!
# Names at the start of a text

A name is an ASCII letter or underscore with the word characters after it, or
an operator between backticks. Each reader returns the text behind the name.
-/

namespace NimMarkdown.Line

/-- The text behind the identifier that `t` begins with. -/
def afterIdentifier : Text → Option Text
  | [] => none
  | c :: r => if isNameStart c then some (r.dropWhile isWord) else none

/-- The text behind the operator name that `t` begins with: a text between
backticks that is not empty and has no backtick in it. -/
def afterOperator : Text → Option Text
  | '\x60' :: r =>
    if (r.takeWhile (· != '\x60')).isEmpty then none
    else match r.dropWhile (· != '\x60') with
      | _ :: rest => some rest
      | [] => none
  | _ => none

def afterName (t : Text) : Option Text := afterIdentifier t <|> afterOperator t

/-- The identifier that the line begins with, behind its indent. -/
def leadingWord (line : Text) : Option Text :=
  match line.stripLeft with
  | [] => none
  | c :: r => if isNameStart c then some (c :: r.takeWhile isWord) else none

end NimMarkdown.Line
