import NimMarkdown.Files.Read
import NimMarkdown.Source

/-!
# From a source file to its document

A source file is read under the limit for the length of its lines. Its outline and
its document are those of the text that it holds.
-/

namespace NimMarkdown

inductive SourceFileError where
  | settings (error : SettingsError)
  | encoding (path : Path) (error : Utf8.DecodeError)
  | file (error : FileError)
  | longLine (path : Path) (line : LongLine)
  | fault (fault : Fault)
  deriving DecidableEq, Repr

def SourceFileError.message : SourceFileError → Text
  | .settings e => e.message
  | .encoding p e => "Invalid UTF-8 sequence in ".toList ++ p.toText ++ ": ".toList ++ e.message
  | .file e => e.message
  | .longLine p line =>
    p.toText ++
      (s!" contains a line at line {line.lineNumber} exceeding the maximum allowed length " ++
        s!"of {line.limit} characters.").toList
  | .fault f => f.message

namespace Host

/-- The text of a source file, if no line is longer than the limit. -/
def readSource (h : Host) (p : Path) (limit : Nat) : Except SourceFileError Text :=
  match h.readText p with
  | .error (.encoding e) => .error (.encoding p e)
  | .error (.file e) => .error (.file e)
  | .ok text =>
    match longLine? limit text with
    | some line => .error (.longLine p line)
    | none => .ok text

/-- The scan of a source file, at its end. -/
def scanFile (h : Host) (p : Path) (options : Options) : Except SourceFileError Scan := do
  let text ← h.readSource p (options.limit .lineLength)
  (Source.scan options text).mapError fun
    | .settings e => .settings e
    | .fault f => .fault f

def fileOutline (h : Host) (p : Path) (settings : Settings) : Except SourceFileError Outline := do
  let options ← settings.validate.mapError .settings
  let scan ← h.scanFile p options
  return scan.outline

def fileDocument (h : Host) (p : Path) (settings : Settings) :
    Except SourceFileError Document := do
  let o ← h.fileOutline p settings
  (Source.render settings o).mapError .settings

end Host

end NimMarkdown
