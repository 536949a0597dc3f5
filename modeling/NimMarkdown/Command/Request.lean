import NimMarkdown.Command.Arguments
import NimMarkdown.Files.Read
import NimMarkdown.Settings.Basic

/-!
# Requests

A request is what a run is asked to do: which source to convert, where the
document goes, and which options are given. Of an option that is given twice the
last counts. Asking for the version or for help comes before all else.
-/

namespace NimMarkdown.Command

inductive UsageError where
  | argument (error : ArgumentError)
  /-- The output path is empty. -/
  | noOutputPath
  | noSource
  | sourceIsDirectory (word : Text)
  | sourceUnreadable (word : Text)
  /-- There are more words than the one that names the source. -/
  | extraWords (words : List Text)
  | source (error : SourcePathError)
  | settings (error : SettingsError)
  deriving DecidableEq, Repr

/-- What a run is asked to do. -/
structure Request where
  source : Text
  output : Option Text := none
  overwrite : Bool := false
  verbose : Bool := false
  /-- The toggles that are given, in the order of the arguments. -/
  toggles : List (Toggle × Bool) := []
  deriving DecidableEq, Repr

def words (items : List Item) : List Text :=
  items.filterMap fun
    | .word w => some w
    | _ => none

/-- The output path that counts, as it is given. -/
def lastOutput? (items : List Item) : Option Text :=
  (items.filterMap fun
    | .output path => some path
    | _ => none).getLast?

def givenToggles (items : List Item) : List (Toggle × Bool) :=
  items.filterMap fun
    | .flag (.toggle t on) => some (t, on)
    | _ => none

/-- An output path may have a colon in front, and must not be empty. -/
def outputPath (given : Text) : Except UsageError Text :=
  let path := match given with
    | ':' :: rest => rest
    | _ => given
  if path.isEmpty then .error .noOutputPath else .ok path

inductive RequestError where
  | usage (error : UsageError)
  /-- The word for the source has a null character. -/
  | nullByte
  deriving DecidableEq, Repr

/-- The request that items make, where the word for the source may be refused. -/
def Request.ofItems (refused : Text → Option UsageError) (items : List Item) :
    Except RequestError Request := do
  let output ← ((lastOutput? items).mapM outputPath).mapError .usage
  match words items with
  | [] => .error (.usage .noSource)
  | source :: extra =>
    if source.contains '\x00' then .error .nullByte
    else match refused source with
      | some e => .error (.usage e)
      | none =>
        if !extra.isEmpty then .error (.usage (.extraWords extra))
        else
          return {
            source, output
            overwrite := items.contains (.flag .overwrite)
            verbose := items.contains (.flag .verbose)
            toggles := givenToggles items }

def Request.overrides (r : Request) : List (Text × Value) :=
  r.toggles.map fun entry => (entry.1.name.toList, .bool entry.2)

end NimMarkdown.Command
