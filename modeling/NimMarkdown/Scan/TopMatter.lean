import NimMarkdown.Line.Heading
import NimMarkdown.Scan.Fence
import NimMarkdown.Text.Word

/-!
# The top matter

The top matter of a source is its copyright note and the doc comment of the
module. A line of the doc comment is held back until the next line shows whether
it is a heading. The top matter ends at the first blank line or line of code
behind the doc comment.
-/

namespace NimMarkdown.Scan

/-- Writes the line that is held back. -/
def commitHeld (s : Scan) : Scan :=
  match s.held with
  | none => s
  | some line => { s.appendLine .topMatter line with held := none }

/-- A doc line of the module outside of code blocks. -/
def topText (s : Scan) (text : Text) : Scan :=
  if Line.isCodeBlock text then s.commitHeld.openFence .topMatter text
  else
    let level := Line.underlineLevel text
    match s.held with
    | none => { s with held := some text }
    | some line =>
      if level != 0 && !line.isBlankText then
        { s.appendLine .topMatter (headingLine level line) with held := none }
      else { s.appendLine .topMatter line with held := some text }

/-- A doc line of the module. -/
def topLine (s : Scan) (text : Text) : Except Failure Scan :=
  if s.fence.isOpen then do
    let (taken, s) ← s.feedFence text
    return if taken then s else s.topText text
  else .ok (s.topText text)

/-- A plain comment before the module's doc comment. Of these, the copyright notes
are written, the first one set off. -/
def topComment (s : Scan) (line : Text) : Except Failure Scan :=
  if Line.isCopyright line then
    if s.copyrightSeen then s.topLine (Line.commentText line)
    else
      let note := '*' :: (Line.commentText line ++ ['*'])
      .ok { (s.appendLine .topMatter note).appendLine .topMatter [] with copyrightSeen := true }
  else .ok s

/-- A line behind the beginning of the doc comment. Pragmas and plain comments are
passed over. -/
def topDoc (s : Scan) (line : Text) : Except Failure (Bool × Scan) :=
  if Text.startsWith Line.docMarker line then do
    let s ← s.topLine (Line.docText line)
    return (true, s)
  else match line.strip with
    | [] => .ok (false, s)
    | c :: _ => .ok (!isAsciiLetter c, s)

/-- A line of the source while the code has not begun. The answer says whether it
belongs to the top matter; if not, it is the first line of the code. -/
def takeTop (s : Scan) (line : Text) : Except Failure (Bool × Scan) :=
  if s.docSeen then s.topDoc line
  else if Text.startsWith Line.docMarker line then topDoc { s with docSeen := true } line
  else if Line.isPlainComment line then do
    let s ← s.topComment line
    return (true, s)
  else if line.isBlankText then .ok (true, s)
  else .ok (false, { s with docSeen := true })

/-- The code begins at a line. -/
def enterCode (s : Scan) (lineNumber : Int) : Scan :=
  note { s.commitHeld.closeFence with inCode := true } (.codeReached lineNumber)

end NimMarkdown.Scan
