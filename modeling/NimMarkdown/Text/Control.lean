import NimMarkdown.Text.Basic

/-!
# Control sequences

A control sequence tells a terminal how to show what follows: an escape character, a
bracket, any number of parameter characters, then of intermediate characters, and a final
character. Where a text is not shown on a terminal its control sequences are left out. An
escape character that begins none stays.

`Plain` reads a text from its end. Beside the text that is left it keeps what would be left
if an earlier character made a control sequence of the beginning.
-/

namespace NimMarkdown.Text

/-- The character that begins a control sequence. -/
def escapeChar : Char := '\x1b'

/-- Digits and the punctuation between them. -/
def isParameter (c : Char) : Bool := '0' ≤ c && c ≤ '?'

/-- The space and the punctuation before the digits. -/
def isIntermediate (c : Char) : Bool := ' ' ≤ c && c ≤ '/'

/-- Letters and the punctuation around them. -/
def isFinal (c : Char) : Bool := '@' ≤ c && c ≤ '~'

/-- The end of a text without control sequences. -/
structure Plain where
  text : Text := []
  /-- What is left if the text begins after the parameters of a control sequence. -/
  afterParameters : Option Text := none
  /-- What is left if the text begins after the bracket of a control sequence. -/
  afterBracket : Option Text := none
  /-- What is left if the text begins after the escape character of a control sequence. -/
  afterEscape : Option Text := none
  deriving DecidableEq, Repr

/-- Adds a character in front. -/
def Plain.cons (c : Char) (p : Plain) : Plain :=
  let afterParameters :=
    if isFinal c then some p.text
    else if isIntermediate c then p.afterParameters
    else none
  { text := if c = escapeChar then p.afterEscape.getD (c :: p.text) else c :: p.text
    afterParameters
    afterBracket := if isParameter c then p.afterBracket else afterParameters
    afterEscape := if c = '[' then p.afterBracket else none }

/-- The text without its control sequences. -/
def withoutControls (t : Text) : Text := (t.foldr Plain.cons {}).text

end NimMarkdown.Text
