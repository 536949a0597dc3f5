import NimMarkdown.Files.Host
import NimMarkdown.Text.Lines

/-!
# Reading files

The source file has to be a regular file that is reached without any link and
has an extension of the language. Its size is checked before it is read.
-/

namespace NimMarkdown

/-- Why a path does not name a source file. -/
inductive SourcePathError where
  | containsLink (path : Path)
  | notFound (path : Path)
  | unresolved (path : Path) (cause : Refusal)
  | notRegular (path : Path)
  | notSource (path : Path)
  | home (error : HomeError)
  /-- The path runs into a loop of links. -/
  | loop (path : Text)
  /-- The links of the path nest too deeply. -/
  | tooDeep
  /-- The path has a null character. -/
  | nullByte
  /-- The system refuses the canonical path. -/
  | refused (cause : SystemError)
  deriving DecidableEq, Repr

def sourceExtensions : List Text := [".nim".toList, ".nims".toList, ".nimble".toList]

/-- What is said of nesting without end. -/
def recursionMessage : Text := "maximum recursion depth exceeded".toList

def SourcePathError.message : SourcePathError → Text
  | .containsLink p => "Symlinks are not supported for security reasons: ".toList ++ p.toText
  | .notFound p => "File not found: ".toList ++ p.toText
  | .unresolved p cause =>
    "Error resolving ".toList ++ p.toText ++ ": ".toList ++ cause.message
  | .notRegular p => p.toText ++ " is not a regular file.".toList
  | .notSource p =>
    p.toText ++ " is not a Nim file.\nSupported extensions are: ".toList ++
      ", ".toList.intercalate sourceExtensions
  | .home e => e.message
  | .loop path => "Symlink loop from ".toList ++ Text.quoted path
  | .tooDeep => recursionMessage
  | .nullByte => SystemError.nullByte.message
  | .refused cause => cause.message

inductive FileError where
  | access (path : Path) (cause : Refusal)
  | isLink (path : Path)
  | notRegular (path : Path)
  | tooLarge (path : Path) (limit : Int)
  | alreadyExists (path : Path)
  | writing (path : Path) (cause : Refusal)
  | system (cause : SystemError)
  deriving DecidableEq, Repr

namespace FileError

def message : FileError → Text
  | .access p cause => "Error accessing ".toList ++ p.toText ++ ": ".toList ++ cause.message
  | .isLink p => "Symlinks are not supported: ".toList ++ p.toText ++ ['.']
  | .notRegular p => p.toText ++ " is not a regular file.".toList
  | .tooLarge p limit =>
    p.toText ++ s!" exceeds the maximum allowed size of {limit} bytes.".toList
  | .alreadyExists p => p.toText ++ " exists. Use -ow to overwrite.".toList
  | .writing p cause => "Error writing ".toList ++ p.toText ++ ": ".toList ++ cause.message
  | .system cause => cause.message

def ofAccess (p : Path) : SystemError → FileError
  | .refused cause => .access p cause
  | e => .system e

/-- The error of opening a file to read it: where nothing can be read at the path it is an
error of access. -/
def ofOpen (p : Path) : SystemError → FileError
  | .refused cause =>
    match cause.errno with
    | .noEntry => .access p cause
    | .notDirectory => .access p cause
    | .isDirectory => .access p cause
    | .denied => .access p cause
    | .notPermitted => .access p cause
    | _ => .system (.refused cause)
  | e => .system e

def ofWrite (p : Path) : SystemError → FileError
  | .refused cause => .writing p cause
  | e => .system e

end FileError

structure RegularFile where
  mode : Nat
  bytes : List Byte
  deriving DecidableEq, Repr

namespace Host

/-- The canonical path of the source file that a text names. -/
def sourceFile (h : Host) (text : Text) : Except SourcePathError Path :=
  match h.expandHome (Path.ofText text) with
  | .error e => .error (.home e)
  | .ok p =>
    if h.containsLink p then .error (.containsLink p)
    else match h.tree.canonical h.linkRoom h.workingDirectory p with
      | .error (.loop path) => .error (.loop path)
      | .error .tooDeep => .error .tooDeep
      | .error (.system .nullByte) => .error .nullByte
      | .error (.system (.refused cause)) =>
        .error (if cause.errno = .noEntry then .notFound p else .unresolved p cause)
      | .ok resolved =>
        match h.isFile? resolved with
        | .error cause => .error (.refused cause)
        | .ok false => .error (.notRegular resolved)
        | .ok true =>
          if !sourceExtensions.contains resolved.suffix.lower then .error (.notSource resolved)
          else .ok resolved

/-- The regular file at a path, which must not be a link. -/
def regularFile (h : Host) (p : Path) : Except FileError RegularFile :=
  match h.lstat p with
  | .error cause => .error (.ofAccess p cause)
  | .ok (_, .link _) => .error (.isLink p)
  | .ok (_, .directory) => .error (.notRegular p)
  | .ok (_, .file mode bytes) => .ok ⟨mode, bytes⟩

/-- Refuses a regular file of more bytes than the limit. -/
def checkSize (h : Host) (p : Path) (limit : Int) : Except FileError Unit := do
  let file ← h.regularFile p
  if (file.bytes.length : Int) > limit then .error (.tooLarge p limit) else .ok ()

/-- The bytes of the file that a path leads to, if it may be read. -/
def readBytes (h : Host) (p : Path) : Except SystemError (List Byte) :=
  match h.stat p with
  | .error e => .error e
  | .ok (loc, node) =>
    match h.tree.unreadable.lookup loc, node with
    | some errno, _ => .error (.refused ⟨errno, [p.toText]⟩)
    | none, .file _ bytes => .ok bytes
    | none, _ => .error (.refused ⟨.isDirectory, [p.toText]⟩)

inductive TextError where
  | file (error : FileError)
  | encoding (error : Utf8.DecodeError)
  deriving DecidableEq, Repr

/-- The text of a file, with every line ended by a line feed. -/
def readText (h : Host) (p : Path) : Except TextError Text :=
  match h.readBytes p with
  | .error cause => .error (.file (.ofOpen p cause))
  | .ok bytes =>
    match Utf8.decode bytes with
    | .error e => .error (.encoding e)
    | .ok text => .ok (Text.unifyLineEndings text)

end Host

end NimMarkdown
