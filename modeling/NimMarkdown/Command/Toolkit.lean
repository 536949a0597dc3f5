import NimMarkdown.Command.Request
import NimMarkdown.Files.Host

/-!
# The toolkit of the command

The command is built on a toolkit for programs of the command line. It reads the
arguments, and what the command says goes through it to the two output streams.
-/

namespace NimMarkdown.Command

inductive Asked where
  | request (r : Request)
  /-- A text is shown in place of a conversion. -/
  | notice (text : Text)
  | refused (error : RequestError)

structure StreamError where
  message : Text
  deriving DecidableEq, Repr

/-- How a message is set off from others. -/
inductive Emphasis where
  | plain | warning | success
  deriving DecidableEq, Repr

/-- How arguments are read, and what the streams are given. The error stream takes every text;
standard output may not take one with a character that it cannot encode. -/
structure Toolkit where
  ask : Host → List Text → Asked
  print : Text → Except StreamError Text
  tell : Emphasis → Text → Text
  reportUsage : UsageError → Text
  reportFailure : (message : Text) → Text

end NimMarkdown.Command
