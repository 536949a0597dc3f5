import NimMarkdown.Line.Import
import NimMarkdown.Scan.Doc
import NimMarkdown.Scan.Examples
import NimMarkdown.Scan.Section

/-!
# One line of a source

`Scan.line` is the step of a scan: what a source line does to its state. Guard
lines of the main module are passed over; the other lines belong to the top
matter until the code begins.
-/

namespace NimMarkdown.Scan

/-- A line that imports or includes something, if it does. -/
def importLine (s : Scan) (text : Text) : Option Scan :=
  let listed (s : Scan) : Scan := { s.flushPending.endDeclaration with admitting := true }
  match Line.importBullet text with
  | some bullet =>
    let s := listed s
    some { s with outline := { s.outline with imports := s.outline.imports ++ [bullet] } }
  | none =>
    (Line.includeBullet text).map fun bullet =>
      let s := listed s
      { s with outline := { s.outline with includes := s.outline.includes ++ [bullet] } }

/-- A line of code that is neither blank nor a comment, nor imports anything. -/
def declarationLine (s : Scan) (lineNumber : Int) (line : Text) : Scan :=
  if (Line.routine? line).isSome then
    startDeclaration { s with openSection := { s.openSection with category := none } } line
      lineNumber
  else if !s.pending.lines.isEmpty then s.continueDeclaration line
  else
    let (handled, s) := s.sectionLine line lineNumber
    if !handled && Line.opensExamples line.strip then s.startCapture line else s

/-- A line of code outside of code blocks and examples. -/
def bodyLine (s : Scan) (lineNumber : Int) (line : Text) : Scan :=
  if line.isBlankText then s.flushPending.endDeclaration
  else
    let s := if line.indent == 0 then { s with admitting := true } else s
    if Line.isDoc line then s.docLine line
    else match Line.splitInlineDoc line with
      | some (code, doc) => s.inlineDoc code doc lineNumber
      | none =>
        match s.importLine line.strip with
        | some s => s
        | none => s.declarationLine lineNumber line

/-- A line of code while a code block may be open. The answer says whether the block has
taken the line; if not, no block is open. -/
def fencedLine (s : Scan) (line : Text) : Except Failure (Bool × Scan) :=
  if s.fence.isOpen then
    if Line.isDoc line then do
      let (taken, s) ← s.feedFence (Line.docText line)
      return if taken then (true, s) else (false, s.closeFence)
    else .ok (false, s.closeFence)
  else .ok (false, s)

/-- A line of code. -/
def codeLine (s : Scan) (lineNumber : Int) (line : Text) : Except Failure Scan :=
  let (captured, s) := if s.capture.active then s.captureLine line else (false, s)
  if captured then .ok s
  else do
    let (taken, s) ← s.fencedLine line
    return if taken then s else s.bodyLine lineNumber line

/-- A line of the source, without the carriage returns at its end. -/
def line (s : Scan) (lineNumber : Int) (line : Text) : Except Failure Scan :=
  if Line.isMainGuard line then .ok s
  else if s.inCode then s.codeLine lineNumber line
  else do
    let (taken, s) ← s.takeTop line
    if taken then return s else (s.enterCode lineNumber).codeLine lineNumber line

/-- The end of the source. -/
def finish (s : Scan) : Scan :=
  let s := if s.inCode then s else s.commitHeld
  s.closeFence.flushPending.endDeclaration

end NimMarkdown.Scan
