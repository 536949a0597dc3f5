import NimMarkdown.Command.Log
import NimMarkdown.Command.Plain
import NimMarkdown.Files.Write
import NimMarkdown.Settings.Environment
import NimMarkdown.Settings.File
import NimMarkdown.SourceFile

/-!
# Running the command

A run takes the arguments on a host to an outcome: the exit code, what is written
to the two output streams, and the host after the run. What the streams are given is
up to the toolkit, but a file gets the document as it is. A run ends with code 2 if the
command is not used as it has to be and with code 1 if it fails otherwise. Some
errors are not reported; a run that meets one is said to crash.
-/

namespace NimMarkdown.Command

inductive RunError where
  | limit (error : VariableError)
  | file (error : FileError)
  | source (error : SourceFileError)
  deriving DecidableEq, Repr

def RunError.message : RunError → Text
  | .limit e => e.message
  | .file e => e.message
  | .source e => e.message

/-- An error that is not reported. -/
inductive Crash where
  | path (error : SourcePathError)
  | settings (error : LoadError)
  | fault (fault : Fault)
  /-- Standard output does not take the document. -/
  | output (error : StreamError)
  deriving DecidableEq, Repr

def Crash.message : Crash → Text
  | .path e => e.message
  | .settings e => e.message
  | .fault f => f.message
  | .output e => e.message

/-- Why a run ends before its work is done. -/
inductive Stop where
  | usage (error : UsageError)
  | failure (error : RunError)
  | crash (crash : Crash)
  deriving DecidableEq, Repr

namespace Stop

def ofSourcePath : SourcePathError → Stop
  | .home .unknown => .crash (.path (.home .unknown))
  | .loop path => .crash (.path (.loop path))
  | .tooDeep => .crash (.path .tooDeep)
  | .refused cause => .crash (.path (.refused cause))
  | e => .usage (.source e)

def ofLoad : LoadError → Stop
  | .settings e => .usage (.settings e)
  | e => .crash (.settings e)

def ofFile : FileError → Stop
  | .system .nullByte => .crash (.path .nullByte)
  | e => .failure (.file e)

def ofSourceFile : SourceFileError → Stop
  | .fault f => .crash (.fault f)
  | .file e => ofFile e
  | e => .failure (.source e)

def ofRequest : RequestError → Stop
  | .usage e => .usage e
  | .nullByte => .crash (.path .nullByte)

end Stop

/-- What a run comes to. -/
structure Outcome where
  exitCode : Nat := 0
  output : Text := []
  /-- What is written to the error stream. -/
  messages : Text := []
  crash : Option Crash := none
  deriving DecidableEq, Repr

/-- The outcome of a run that ends early, after the given messages. -/
def Stop.outcome (k : Toolkit) (messages : Text) : Stop → Outcome
  | .usage e => { exitCode := 2, messages := messages ++ k.reportUsage e }
  | .failure e => { exitCode := 1, messages := messages ++ k.reportFailure e.message }
  | .crash c => { exitCode := 1, messages, crash := some c }

structure Job where
  source : Path
  options : Options

structure Rendering where
  document : Document
  messages : Text
  deriving DecidableEq, Repr

/-- Prints a document, if there is anything to print. -/
def printDocument (k : Toolkit) (rendering : Rendering) : Outcome :=
  let messages := rendering.messages
  if rendering.document.isEmpty then { messages }
  else match k.print (rendering.document.text ++ ['\n']) with
    | .error e => (Stop.crash (.output e)).outcome k messages
    | .ok output => { output, messages }

end NimMarkdown.Command

namespace NimMarkdown.Host

open Command

def limitInForce (h : Host) (options : Options) (l : Limit) : Except Stop Int :=
  (l.inForce (h.environment.lookup l.variableName.toList) (options.limit l)).mapError
    fun e => .failure (.limit e)

/-- Checks a request: its source, the settings, the limits, and the size of the source. -/
def prepare (h : Host) (r : Request) : Except Stop Job := do
  let source ← (h.sourceFile r.source).mapError .ofSourcePath
  let (_, options) ← (h.buildSettings source.parent r.overrides).mapError .ofLoad
  let fileSize ← h.limitInForce options .fileSize
  let lineLength ← h.limitInForce options .lineLength
  (h.checkSize source fileSize).mapError .ofFile
  return ⟨source, { options with
    limit := fun
      | .fileSize => options.limit .fileSize
      | .lineLength => lineLength.toNat }⟩

/-- The document of a source file. -/
def convert (h : Host) (k : Toolkit) (job : Job) (verbose : Bool) : Except Stop Rendering := do
  let scan ← (h.scanFile job.source job.options).mapError .ofSourceFile
  let document := scan.outline.render job.options.on
  let log :=
    if verbose then
      scanLog scan.log ++ documentLog document (scan.outline.shownCount job.options.on)
    else []
  let warning :=
    if document.isEmpty then
      k.tell .warning "WARNING: ".toList ++
        k.tell .plain ("No documentation found in ".toList ++ job.source.toText ++ ['\n'])
    else []
  return ⟨document, log ++ warning⟩

/-- Writes a document where the request says. -/
def deliver (h : Host) (k : Toolkit) (r : Request) (rendering : Rendering) : Outcome × Host :=
  let messages := rendering.messages
  match r.output with
  | none => (printDocument k rendering, h)
  | some output =>
    match h.expandHome (Path.ofText output) with
    | .error e => ((Stop.crash (.path (.home e))).outcome k messages, h)
    | .ok target =>
      match h.writeLines target rendering.document.lines r.overwrite with
      | (.error e, h) => ((Stop.ofFile e).outcome k messages, h)
      | (.ok _, h) =>
        ({ messages := messages ++
            k.tell .success ("Markdown written to ".toList ++ target.toText ++ ['\n']) }, h)

def serve (h : Host) (k : Toolkit) (r : Request) : Outcome × Host :=
  match h.prepare r >>= fun job => h.convert k job r.verbose with
  | .error stop => (stop.outcome k [], h)
  | .ok rendering => h.deliver k r rendering

def run (h : Host) (args : List Text) (k : Toolkit := .plain) : Outcome × Host :=
  match k.ask h args with
  | .notice text => ({ output := text }, h)
  | .refused e => ((Stop.ofRequest e).outcome k [], h)
  | .request r => h.serve k r

end NimMarkdown.Host
