import NimMarkdown.Command.Flag
import NimMarkdown.Text.Quoted

/-!
# Arguments

Arguments are read from the left. One that begins with a dash is an option: a
whole name, possibly with `=` and a value, or else letters in a group behind one
dash. `--` ends the options, and a single dash is a word. The output path is the
rest of the group, what follows `=`, or the next argument, whatever that is.
-/

namespace NimMarkdown.Command

inductive Item where
  | flag (f : Flag)
  | output (path : Text)
  | word (w : Text)
  deriving DecidableEq, Repr

inductive ArgumentError where
  | unknownOption (name : Text)
  /-- No argument follows that could be the value. -/
  | valueMissing (name : Text)
  /-- A flag is given a value. -/
  | valueNotTaken (name : Text)
  deriving DecidableEq, Repr

def ArgumentError.message : ArgumentError → Text
  | .unknownOption name => "No such option ".toList ++ Text.quoted name ++ ['.']
  | .valueMissing name => "Option ".toList ++ Text.quoted name ++ " requires an argument.".toList
  | .valueNotTaken name => "Option ".toList ++ Text.quoted name ++ " does not take a value.".toList

/-- What one argument says. -/
inductive Reading where
  | complete (items : List Item)
  /-- The next argument is the output path; the option is called by the name. -/
  | valueNext (items : List Item) (name : Text)
  | endOfOptions
  deriving DecidableEq, Repr

def Reading.cons (item : Item) : Reading → Reading
  | .complete items => .complete (item :: items)
  | .valueNext items name => .valueNext (item :: items) name
  | .endOfOptions => .complete [item]

def readLetters : Text → Except ArgumentError Reading
  | [] => .ok (.complete [])
  | c :: rest =>
    if c == outputLetter then
      .ok (if rest.isEmpty then .valueNext [] ['-', c] else .complete [.output rest])
    else match Flag.ofLetter? c with
      | none => .error (.unknownOption ['-', c])
      | some f => (readLetters rest).map (Reading.cons (.flag f))

/-- The whole name in an option, and the value behind `=` if there is one. -/
def splitValue (arg : Text) : Text × Option Text :=
  match Text.cutAt ['='] arg with
  | none => (arg, none)
  | some (name, value) => (name, some value)

/-- Reads an option: by its whole name, or else as a group behind one dash. -/
def readOption (arg : Text) : Except ArgumentError Reading :=
  let (name, value) := splitValue arg
  if name == outputName then
    match value with
    | some path => .ok (.complete [.output path])
    | none => .ok (.valueNext [] name)
  else match Flag.ofName? name, value with
    | some f, none => .ok (.complete [.flag f])
    | some _, some _ => .error (.valueNotTaken name)
    | none, _ =>
      if Text.startsWith ['-', '-'] arg then .error (.unknownOption name)
      else readLetters (arg.drop 1)

def readArgument (arg : Text) : Except ArgumentError Reading :=
  if arg == ['-', '-'] then .ok .endOfOptions
  else if arg.head? == some '-' && arg.length > 1 then readOption arg
  else .ok (.complete [.word arg])

def readArguments : List Text → Except ArgumentError (List Item)
  | [] => .ok []
  | arg :: rest =>
    match readArgument arg, rest with
    | .error e, _ => .error e
    | .ok .endOfOptions, rest => .ok (rest.map .word)
    | .ok (.complete items), rest => (readArguments rest).map (items ++ ·)
    | .ok (.valueNext _ name), [] => .error (.valueMissing name)
    | .ok (.valueNext items _), value :: rest =>
      (readArguments rest).map (items ++ .output value :: ·)

end NimMarkdown.Command
