import NimMarkdown.Text.Basic

/-!
# Headings

The heading of a declaration is its line up to the parameters, the type, the
value or the pragma. In a doc comment, an underline below a line makes the line a
heading.
-/

namespace NimMarkdown.Line

/-- A character that ends the heading of a declaration. -/
def endsHeading (c : Char) : Bool := c == '(' || c == ':' || c == '=' || c == '{'

/-- The text up to the first end of a heading that stands outside backticks. -/
def headingPart : (inOperator : Bool) → Text → Text
  | _, [] => []
  | inOperator, c :: r =>
    if c == '\x60' then c :: headingPart (!inOperator) r
    else if !inOperator && endsHeading c then []
    else c :: headingPart inOperator r

/-- The heading of a declaration line: `proc foo*` for `proc foo*(x: int) =`. -/
def declarationHeading (line : Text) : Text := (headingPart false line.strip).stripRight

/-- The text is a run of at least three `c`. -/
def isRule (c : Char) (t : Text) : Bool := 3 ≤ t.length && t.all (· == c)

/-- The level of the heading that an underline makes of the line above, or 0. -/
def underlineLevel (text : Text) : Nat :=
  let t := text.strip
  if isRule '-' t then 1
  else if isRule '=' t || isRule '^' t then 2
  else 0

end NimMarkdown.Line
