import NimMarkdown.Markdown.Document
import NimMarkdown.Scan.Source
import NimMarkdown.Settings.Basic

/-!
# From a source text to its document

`outline` and `document` are the library's answer for a source that is already
read. Malformed source is never refused: they fail where the settings are not
valid.
-/

namespace NimMarkdown

inductive SourceError where
  | settings (error : SettingsError)
  | fault (fault : Fault)
  deriving DecidableEq, Repr

namespace Source

/-- The scan of a source under given options, at its end. -/
def scan (options : Options) (content : Text) : Except SourceError Scan :=
  (Scan.source (options.on .exportedOnly) content).mapError fun failure =>
    .fault failure.fault

def outline (settings : Settings) (content : Text) : Except SourceError Outline := do
  let options ← settings.validate.mapError .settings
  let scan ← scan options content
  return scan.outline

/-- The document of an outline. -/
def render (settings : Settings) (o : Outline) : Except SettingsError Document := do
  let options ← settings.validate
  return o.render options.on

def document (settings : Settings) (content : Text) : Except SourceError Document := do
  let o ← outline settings content
  (render settings o).mapError .settings

end Source

structure LongLine where
  lineNumber : Nat
  limit : Int
  deriving DecidableEq, Repr

def LongLine.message (e : LongLine) : Text :=
  s!"Line {e.lineNumber} exceeds maximum allowed length of {e.limit} characters".toList

/-- The first of the lines that is longer than the limit; the first has the given number. -/
def firstLongLine (limit : Int) (lineNumber : Nat) : List Text → Option LongLine
  | [] => none
  | line :: rest =>
    if (line.length : Int) > limit then some ⟨lineNumber, limit⟩
    else firstLongLine limit (lineNumber + 1) rest

/-- The first line of a source that is longer than the limit. -/
def longLine? (limit : Int) (content : Text) : Option LongLine :=
  firstLongLine limit 1 (Scan.sourceLines content)

end NimMarkdown
