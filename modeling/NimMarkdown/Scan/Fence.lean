import NimMarkdown.Line.Comment
import NimMarkdown.Markdown.Mark
import NimMarkdown.Scan.State

/-!
# Fenced code blocks

A directive in a doc comment opens a code block; the indented doc lines below it
are the body. The block ends at a line without indent, at another directive, at
two blank lines in a row, or where the doc comment ends. A blank line inside
the body is held back until another line of the body follows; if the block ends
instead, it is written behind the fence.
-/

namespace NimMarkdown.Scan

/-- Opens the block of a directive. -/
def openFence (s : Scan) (place : Place) (text : Text) : Scan :=
  { s.appendLine place (if Line.isPlainBlock text then fenceMark else sourceFence) with
    fence := { isOpen := true, atStart := true, place := some place } }

/-- Closes the open block, if there is one. -/
def closeFence (s : Scan) : Scan :=
  match s.fence.place with
  | none => s
  | some place =>
    if s.fence.isOpen then
      let s' := s.appendLine place fenceMark
      { (if s.fence.blankHeld then s'.appendLine place [] else s') with fence := {} }
    else s

/-- Writes a line of the body, behind the blank line that was held back. -/
def writeFenced (s : Scan) (place : Place) (width : Nat) (text : Text) : Scan :=
  let s' := if s.fence.blankHeld then s.appendLine place [] else s
  { s'.appendLine place (Text.stripRight (text.drop width)) with
    fence := { s.fence with blankHeld := false, atStart := false } }

/-- A doc line below a directive. The answer says whether the block has taken the
line; if not, the block is closed. -/
def feedFence (s : Scan) (text : Text) : Except Failure (Bool × Scan) :=
  if Line.isCodeBlock text then .ok (false, s.closeFence)
  else if text.isBlankText then
    if s.fence.atStart then .ok (true, s)
    else if s.fence.blankHeld then
      .ok (false, closeFence { s with fence := { s.fence with blankHeld := false } })
    else .ok (true, { s with fence := { s.fence with blankHeld := true } })
  else match text with
    | [] => .error ⟨.noCharacter, s⟩
    | first :: _ =>
      if isBlank first then
        let indent := s.fence.indent.getD text.indent
        let s' := { s with fence := { s.fence with indent := some indent } }
        match s.fence.place with
        | none => .error ⟨.noPlace, s'⟩
        | some place => .ok (true, s'.writeFenced place (min indent text.indent) text)
      else .ok (false, s.closeFence)

end NimMarkdown.Scan
