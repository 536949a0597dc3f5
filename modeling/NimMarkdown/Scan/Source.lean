import NimMarkdown.Scan.Line
import NimMarkdown.Text.Lines

/-!
# Scanning a source

`Scan.source` takes a whole source from the fresh state to its end. `Scan.states`
are the states on the way.
-/

namespace NimMarkdown.Scan

/-- The lines of a source, each without the carriage returns at its end. -/
def sourceLines (content : Text) : List Text := (Text.splitLines content).map Text.dropReturns

/-- Reads lines, of which the first has the given number. -/
def lines (s : Scan) (lineNumber : Nat) : List Text → Except Failure Scan
  | [] => .ok s
  | line :: rest =>
    match s.line lineNumber line with
    | .ok next => next.lines (lineNumber + 1) rest
    | .error failure => .error failure

/-- The state before the first line. -/
def fresh (exportedOnly : Bool) : Scan := { exportedOnly }

def source (exportedOnly : Bool) (content : Text) : Except Failure Scan :=
  ((fresh exportedOnly).lines 1 (sourceLines content)).map finish

/-- The states before each of the lines, and the state at the end. -/
def states (s : Scan) (lineNumber : Nat) : List Text → Except Failure (List Scan)
  | [] => .ok [s.finish]
  | line :: rest =>
    match s.line lineNumber line with
    | .ok next => (next.states (lineNumber + 1) rest).map (s :: ·)
    | .error failure => .error failure

def sourceStates (exportedOnly : Bool) (content : Text) : Except Failure (List Scan) :=
  (fresh exportedOnly).states 1 (sourceLines content)

end NimMarkdown.Scan
