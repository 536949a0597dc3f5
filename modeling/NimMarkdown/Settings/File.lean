import NimMarkdown.Files.Read
import NimMarkdown.Settings.Basic
import NimMarkdown.Toml.Document

/-!
# Settings files

Settings are looked for in a directory and then in the directories above it. In
each, two files may hold them, and a file may have its table at different paths.
The first table that is found counts. A file that cannot be opened, or is no
well-formed document, is passed over.
-/

namespace NimMarkdown

inductive LoadError where
  | settings (error : SettingsError)
  /-- A settings file is not UTF-8. -/
  | encoding (error : Utf8.DecodeError)
  /-- The system refuses to say whether a settings file is there. -/
  | system (error : SystemError)
  /-- The directory runs into a loop of links. -/
  | loop (path : Text)
  /-- An integer in a settings file has too many digits. -/
  | tooManyDigits (count : Nat)
  /-- The values in a settings file, or the links on the way to the directory, nest too deeply. -/
  | tooDeep
  /-- An override has a name that no override can have. -/
  | unknownName
  deriving DecidableEq, Repr

def LoadError.message : LoadError → Text
  | .settings e => e.message
  | .encoding e => e.message
  | .system e => e.message
  | .loop path => "Symlink loop from ".toList ++ Text.quoted path
  | .tooManyDigits count =>
    (s!"Exceeds the limit ({Text.maxDigits} digits) for integer string conversion: " ++
      s!"value has {count} digits; use sys.set_int_max_str_digits() to increase the limit").toList
  | .tooDeep => recursionMessage
  | .unknownName => "unknown setting".toList

/-- The names of settings files, with the paths of their tables in the order of precedence. -/
def settingsFiles : List (Text × List (List Text)) :=
  [("pyproject.toml".toList, [["tool".toList, "nimtomd".toList]]),
    (".nimtomd.toml".toList, [["nimtomd".toList], ["tool".toList, "nimtomd".toList]])]

/-- The first of the tables that a document has. -/
def firstTable (v : Value) (paths : List (List Text)) : Option (List Text × Value) :=
  paths.findSome? fun path => (v.atPath path).map (path, ·)

namespace Host

/-- The document in a settings file, if it can be read. -/
def loadDocument (h : Host) (file : Path) : Except LoadError (Option Value) := do
  if ← (h.exists? file).mapError .system then
    match h.readBytes file with
    | .error _ => return none
    | .ok bytes =>
      let text ← (Utf8.decode bytes).mapError .encoding
      match Toml.parse h.valueRoom text with
      | .ok v => return some v
      | .error .malformed => return none
      | .error (.tooManyDigits count) => .error (.tooManyDigits count)
      | .error .tooDeep => .error .tooDeep
  else return none

/-- The settings in a file, if it has any. -/
def loadFile (h : Host) (file : Path) (paths : List (List Text)) :
    Except LoadError (Option Settings) := do
  match ← h.loadDocument file with
  | none => return none
  | some v =>
    match firstTable v paths with
    | none => return none
    | some (path, table) =>
      let settings ← (Settings.ofTable table path file.toText).mapError .settings
      return some settings

/-- The settings in the first of the files that has any. -/
def loadFirst (h : Host) : List (Path × List (List Text)) → Except LoadError Settings
  | [] => .ok .byDefault
  | (file, paths) :: rest =>
    match h.loadFile file paths with
    | .error e => .error e
    | .ok (some settings) => .ok settings
    | .ok none => h.loadFirst rest

/-- The files that may hold settings for a directory, the nearest first. -/
def settingsCandidates (directory : Path) : List (Path × List (List Text)) :=
  directory.upward.flatMap fun p =>
    settingsFiles.map fun file => (p.child file.1, file.2)

def loadSettings (h : Host) (directory : Path) : Except LoadError Settings :=
  match h.tree.canonicalLax h.linkRoom h.workingDirectory directory with
  | .error (.loop path) => .error (.loop path)
  | .error .tooDeep => .error .tooDeep
  | .error (.system e) => .error (.system e)
  | .ok resolved => h.loadFirst (settingsCandidates resolved)

/-- The name of the directory that settings are looked for in, which no override can have. -/
def directoryName : Text := "search_path".toList

/-- The settings for a directory with overrides, and the options that they give. -/
def buildSettings (h : Host) (directory : Path) (overrides : List (Text × Value)) :
    Except LoadError (Settings × Options) := do
  if overrides.any fun entry => entry.1 == directoryName then .error .unknownName
  else
    let loaded ← h.loadSettings directory
    match loaded.override overrides with
    | none => .error .unknownName
    | some settings =>
      let options ← settings.validate.mapError .settings
      return (settings, options)

end Host

end NimMarkdown
