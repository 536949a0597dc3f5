import NimMarkdown.Settings.Options
import NimMarkdown.Text.Basic

/-!
# Options of the command line

All options but one are flags: they take no value. A flag has whole names, which
begin with one dash or two, and it may have a letter, by which it can stand in a
group behind one dash. The option that takes a value is the output path.
-/

namespace NimMarkdown.Command

/-- What an option without a value asks for. -/
inductive Flag where
  | version | help
  /-- Replace the output file if it exists. -/
  | overwrite
  /-- Tell about the work. -/
  | verbose
  | toggle (t : Toggle) (on : Bool)
  deriving DecidableEq, Repr

namespace Flag

/-- The toggles that have a flag for each of their two values, by the name that is common to
both. -/
def switches : List (String × Toggle) :=
  [("headings", .headings), ("imports", .imports), ("types", .types),
    ("line-numbers", .lineNumbers), ("consts", .consts), ("lets", .lets), ("vars", .vars),
    ("examples", .examples)]

def byName : List (String × Flag) :=
  [("--version", .version), ("--help", .help), ("-ow", .overwrite), ("--overwrite", .overwrite),
    ("-global", .toggle .exportedOnly true), ("--onlyglobals", .toggle .exportedOnly true),
    ("--verbose", .verbose)] ++
    switches.map (fun s => ("--" ++ s.1, .toggle s.2 true)) ++
    switches.map (fun s => ("--no-" ++ s.1, .toggle s.2 false))

def ofName? (name : Text) : Option Flag :=
  (byName.find? fun entry => entry.1.toList == name).map Prod.snd

def ofLetter? : Char → Option Flag
  | 'g' => some (.toggle .exportedOnly true)
  | 'v' => some .verbose
  | 'h' => some .help
  | _ => none

end Flag

def outputName : Text := "--output".toList

def outputLetter : Char := 'o'

end NimMarkdown.Command
