import NimMarkdown.Markdown.Document
import NimMarkdown.Scan.State
import NimMarkdown.Text.Quoted

/-!
# The log of a run

A run that is asked to tell about its work writes a line for each event of the
scan and one for the document.
-/

namespace NimMarkdown

def Event.message : Event → Text
  | .codeReached lineNumber => s!"Code body reached at line {lineNumber}".toList
  | .discarded heading lineNumber =>
    "Discarded non-exported declaration ".toList ++ Text.quoted heading ++
      s!" at line {lineNumber}".toList
  | .replaced lineNumber pendingLine =>
    (s!"Single-line declaration at line {lineNumber} replaces pending signature " ++
      s!"from line {pendingLine}").toList

namespace Command

/-- A line of the log, by the part of the program that it is from. -/
def logLine (part : String) (message : Text) : Text :=
  s!"DEBUG nimtomd.{part}: ".toList ++ message ++ ['\n']

/-- The lines for the events of a scan. -/
def scanLog (events : List Event) : Text :=
  events.flatMap fun event => logLine "parser" event.message

def documentLog (d : Document) (declarations : Nat) : Text :=
  logLine "generator"
    s!"Rendered {d.lines.length} lines from {declarations} declarations".toList

end Command

end NimMarkdown
