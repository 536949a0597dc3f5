import NimMarkdown.Text.Quoted

/-!
# Refusals

What the system says when it does not carry out an operation: why, and the paths that
it was asked for.
-/

namespace NimMarkdown

inductive Errno where
  | noEntry | notDirectory | isDirectory | nameTooLong | tooManyLinks | denied | notPermitted
  /-- All the names that are drawn for a temporary file are taken. -/
  | noFreeName
  | other (number : Nat) (message : String)
  deriving DecidableEq, Repr

namespace Errno

def number : Errno → Nat
  | .noEntry => 2
  | .notDirectory => 20
  | .isDirectory => 21
  | .nameTooLong => 36
  | .tooManyLinks => 40
  | .denied => 13
  | .notPermitted => 1
  | .noFreeName => 17
  | .other number _ => number

def message : Errno → String
  | .noEntry => "No such file or directory"
  | .notDirectory => "Not a directory"
  | .isDirectory => "Is a directory"
  | .nameTooLong => "File name too long"
  | .tooManyLinks => "Too many levels of symbolic links"
  | .denied => "Permission denied"
  | .notPermitted => "Operation not permitted"
  | .noFreeName => "No usable temporary file name found"
  | .other _ message => message

/-- The path does not lead anywhere, which is an answer to the question whether something
stands there. -/
def isAbsence : Errno → Bool
  | .noEntry => true
  | .notDirectory => true
  | .tooManyLinks => true
  | _ => false

end Errno

/-- A refused operation, with the paths it was asked for, if it was asked for any. -/
structure Refusal where
  errno : Errno
  paths : List Text
  deriving DecidableEq, Repr

def Refusal.message (r : Refusal) : Text :=
  s!"[Errno {r.errno.number}] {r.errno.message}".toList ++
    match r.paths with
    | [] => []
    | paths => ": ".toList ++ " -> ".toList.intercalate (paths.map Text.quoted)

/-- Why an operation is not carried out. -/
inductive SystemError where
  | refused (refusal : Refusal)
  /-- A path has a null character, so the system is not even asked. -/
  | nullByte
  deriving DecidableEq, Repr

namespace SystemError

def message : SystemError → Text
  | .refused r => r.message
  | .nullByte => "embedded null byte".toList

/-- The error says that nothing stands where the path leads. -/
def isAbsence : SystemError → Bool
  | .refused r => r.errno.isAbsence
  | .nullByte => true

end SystemError

end NimMarkdown
