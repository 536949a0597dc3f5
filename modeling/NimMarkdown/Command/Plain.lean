import NimMarkdown.Command.Toolkit
import NimMarkdown.Text.Control

/-!
# The plain toolkit

The toolkit of a command whose streams are no terminals. They take every character, and
control sequences are left out of what they are given.
-/

namespace NimMarkdown.Command

/-- What is asked for in place of a conversion. -/
inductive Notice where
  | version | help
  deriving DecidableEq, Repr

def notice? (items : List Item) : Option Notice :=
  items.findSome? fun
    | .flag .version => some .version
    | .flag .help => some .help
    | _ => none

def commandName : String := "nimtomd"

/-- How the command is used, in one line. -/
def usageText : String := s!"Usage: {commandName} [OPTIONS] FILEPATH\n"

def versionText : String := s!"{commandName}, version 0.1.0\n"

def description : String :=
"  Convert the doc comments of a Nim file to Markdown.

  Args:     filepath: Path to the Nim file to process.     output: File to write
  the Markdown to instead of stdout.     overwrite: Replace `output` when it
  already exists.     only_globals: Only include exported (`*`) declarations.
  include_headings: Toggle the heading before each declaration.
  include_imports: Toggle the Imports and Includes sections.     include_types:
  Toggle the Types umbrella heading and the per-kind headings.
  include_line_numbers: Toggle the source line under each declaration.
  include_consts: Toggle declarations from const sections.     include_lets:
  Toggle declarations from let sections.     include_vars: Toggle declarations
  from var sections.     include_examples: Toggle captured runnableExamples
  blocks.     verbose: Log parsing details to stderr.

  Returns:     None.

  Raises:     click.BadParameter: If the path is invalid or the configuration
  contains unsupported values.     click.ClickException: If reading fails,
  limits are exceeded, or the         output file exists without `-ow`.

  Examples:     nimtomd -o:README.md -ow -g src/nimtomd.nim
"

def optionList : String :=
"Options:
  --version                       Show the version and exit.
  -o, --output TEXT               Write the Markdown to this file (also -o:PATH)
  -ow, --overwrite                Overwrite the output file if it exists
  -g, -global, --onlyglobals      Only include exported (*) elements
  --headings / --no-headings      Heading per element
  --imports / --no-imports        Imports and Includes sections
  --types / --no-types            Types umbrella and kind headings
  --line-numbers / --no-line-numbers
                                  Source line under each element
  --consts / --no-consts          const sections
  --lets / --no-lets              let sections
  --vars / --no-vars              var sections
  --examples / --no-examples      runnableExamples blocks
  -v, --verbose                   Log parsing details to stderr
  -h, --help                      Show this message and exit.
"

def helpText : String := usageText ++ "\n" ++ description ++ "\n" ++ optionList

def Notice.text : Notice → Text
  | .version => versionText.toList
  | .help => helpText.toList

/-- An error in a line of its own. -/
def errorLine (message : Text) : Text :=
  Text.withoutControls ("Error: ".toList ++ message ++ ['\n'])

namespace UsageError

def message : UsageError → Text
  | .argument e => e.message
  | .noOutputPath => "Invalid value for '-o' / '--output': an output path is required".toList
  | .noSource => "Missing argument 'FILEPATH'.".toList
  | .sourceIsDirectory word =>
    "Invalid value for 'FILEPATH': File ".toList ++ Text.quoted word ++ " is a directory.".toList
  | .sourceUnreadable word =>
    "Invalid value for 'FILEPATH': File ".toList ++ Text.quoted word ++ " is not readable.".toList
  | .extraWords words =>
    let noun := if words.length = 1 then "argument" else "arguments"
    s!"Got unexpected extra {noun} (".toList ++ [' '].intercalate words ++ [')']
  | .source e => "Invalid value for 'FILEPATH': ".toList ++ e.message
  | .settings e => "Invalid value: ".toList ++ e.message

/-- The report of the error has no word on the usage of the command. -/
def isBare : UsageError → Bool
  | .argument (.valueMissing _) => true
  | .argument (.valueNotTaken _) => true
  | _ => false

def report (e : UsageError) : Text :=
  if e.isBare then errorLine e.message
  else (usageText ++ s!"Try '{commandName} --help' for help.\n\n").toList ++ errorLine e.message

end UsageError

def statText (h : Host) (path : Text) : Except Errno (Location × Node) :=
  if path.isEmpty then .error .noEntry
  else if (Utf8.encode path).length > FileTree.maxPathBytes then .error .nameTooLong
  else
    h.tree.walk true FileTree.maxLinks
      (if path.head? == some '/' then [] else h.workingDirectory) (FileTree.targetNames path)

/-- A word for the source may not lead to a directory, nor to what the user has no right to
read. -/
def refusedSource (h : Host) (word : Text) : Option UsageError :=
  match statText h word with
  | .error _ => none
  | .ok (_, .directory) => some (.sourceIsDirectory word)
  | .ok (loc, _) =>
    if h.tree.unreadable.lookup loc = some .denied then some (.sourceUnreadable word) else none

def askPlainly (h : Host) (args : List Text) : Asked :=
  match readArguments args with
  | .error e => .refused (.usage (.argument e))
  | .ok items =>
    match notice? items with
    | some notice => .notice notice.text
    | none =>
      match Request.ofItems (refusedSource h) items with
      | .error e => .refused e
      | .ok r => .request r

def Toolkit.plain : Toolkit where
  ask := askPlainly
  print t := .ok t.withoutControls
  tell _ t := t.withoutControls
  reportUsage := UsageError.report
  reportFailure := errorLine

end NimMarkdown.Command
