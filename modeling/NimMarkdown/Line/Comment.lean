import NimMarkdown.Text.Lowercase

/-!
# Comments

A doc comment begins with `##`, any other comment with a single `#`. Doc
comments hold text, `TODO` notes, and the directives that open a code block.
-/

namespace NimMarkdown.Line

def docMarker : Text := ['#', '#']

/-- A doc comment, at any indent. -/
def isDoc (line : Text) : Bool := Text.startsWith docMarker line.stripLeft

/-- The text of a doc comment: behind the marker and one space. -/
def docText (line : Text) : Text := Text.dropSpace (line.stripLeft.drop docMarker.length)

/-- A comment that starts the line with a single `#`. -/
def isPlainComment (line : Text) : Bool :=
  Text.startsWith ['#'] line && !Text.startsWith docMarker line

/-- The text of a comment of any kind, trimmed. -/
def commentText (line : Text) : Text := Text.strip (line.stripLeft.dropWhile (· == '#'))

/-- A plain comment with a copyright note. -/
def isCopyright (line : Text) : Bool :=
  isPlainComment line && Text.hasPart "copyright".toList line.lower

/-- A note to the authors, which is not rendered. -/
def isTodo (text : Text) : Bool := Text.startsWith "TODO".toList text.stripLeft

/-- The directive that opens a code block, in any case and spacing. -/
def isCodeBlock (text : Text) : Bool :=
  Text.hasPart "..code-block::".toList (Text.lower (text.filter (· != ' ')))

/-- The directive asks for a block without a language. -/
def isPlainBlock (text : Text) : Bool := Text.hasPart "plain".toList text.lower

/-- The code and the doc text of a line that has both. -/
def splitInlineDoc (line : Text) : Option (Text × Text) :=
  match Text.cutAt docMarker line with
  | none => none
  | some (code, doc) =>
    if code.isBlankText then none else some (code.stripRight, doc.dropSpace)

end NimMarkdown.Line
