import NimMarkdown.Scan.State

/-!
# Runnable examples

The lines below `runnableExamples`, as far as they are blank or indented deeper,
are the examples of the current declaration. Where there is no current
declaration they are read and dropped.
-/

namespace NimMarkdown.Scan

/-- The line opens a block of examples. -/
def startCapture (s : Scan) (line : Text) : Scan :=
  { s with capture := { active := true, indent := line.indent } }

/-- Adds a line to the examples of a declaration. -/
def addExample (s : Scan) (index : Nat) (line : Text) : Scan :=
  { s with
    outline := s.outline.modify index fun d => { d with examples := d.examples ++ [line] } }

/-- Adds a blank line to the examples of a declaration, unless it has none yet. -/
def addBlankExample (s : Scan) (index : Nat) : Scan :=
  { s with
    outline := s.outline.modify index fun d =>
      if d.examples.isEmpty then d else { d with examples := d.examples ++ [[]] } }

/-- A line below `runnableExamples`. The answer says whether it belongs to the block; if
not, the block is over. -/
def captureLine (s : Scan) (line : Text) : Bool × Scan :=
  if !line.isBlankText && line.indent ≤ s.capture.indent then
    (false, { s with capture := { s.capture with active := false, bodyIndent := none } })
  else match s.current with
    | none => (true, s)
    | some index =>
      if line.isBlankText then (true, s.addBlankExample index)
      else
        let bodyIndent := s.capture.bodyIndent.getD line.indent
        let s := { s with capture := { s.capture with bodyIndent := some bodyIndent } }
        (true, s.addExample index (Text.stripRight (line.drop (min bodyIndent line.indent))))

end NimMarkdown.Scan
