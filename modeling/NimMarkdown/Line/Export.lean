import NimMarkdown.Line.Name

/-!
# The export marker

An exported element has a star behind its name. The star counts as a marker when
it is glued to `(`, `:`, `[` or an opening brace, or when `=` follows it, so that a product
such as `a * b` is no marker. `isExported` looks for a marked name at every
place of the line that does not lie inside a word.
-/

namespace NimMarkdown.Line

/-- What stands behind the star of a marked name. -/
def followsMarker (t : Text) : Bool :=
  match t with
  | [] => false
  | c :: _ =>
    c == '(' || c == ':' || c == '[' || c == '{' || (t.stripLeft).head? == some '='

/-- The text begins with a name and its export marker. -/
def startsExported (t : Text) : Bool :=
  match afterName t with
  | some ('*' :: rest) => followsMarker rest
  | _ => false

/-- A marked name stands somewhere in the text; `previous` is the character before it. -/
def exportedAfter (previous : Option Char) : Text → Bool
  | [] => false
  | c :: r =>
    (!previous.any isWord && startsExported (c :: r)) || exportedAfter (some c) r

def isExported (line : Text) : Bool := exportedAfter none line

end NimMarkdown.Line
