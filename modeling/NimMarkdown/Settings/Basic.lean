import NimMarkdown.Settings.Options
import NimMarkdown.Settings.Value

/-!
# Settings

Settings give each option a value of any type, as a settings table does.
`Settings.validate` turns them into options, or says which setting is the first
that has no value of its type.
-/

namespace NimMarkdown

inductive Setting where
  | toggle (t : Toggle)
  | limit (l : Limit)
  deriving DecidableEq, Repr

namespace Setting

def all : List Setting := Toggle.all.map .toggle ++ Limit.all.map .limit

def name : Setting → String
  | .toggle t => t.name
  | .limit l => l.name

def ofName? (name : Text) : Option Setting := all.find? fun s => s.name.toList == name

theorem mem_all (s : Setting) : s ∈ all := by
  cases s with
  | toggle t => exact List.mem_append_left _ (List.mem_map_of_mem (Toggle.mem_all t))
  | limit l => exact List.mem_append_right _ (List.mem_map_of_mem (Limit.mem_all l))

end Setting

structure Settings where
  get : Setting → Value

inductive SettingsError where
  | notBoolean (t : Toggle)
  | notInteger (l : Limit)
  | notPositive (l : Limit)
  /-- The settings table of a file is no table, or has an unknown key. -/
  | invalidTable (path : List Text) (file : Text)
  deriving DecidableEq, Repr

def SettingsError.message : SettingsError → Text
  | .notBoolean t => s!"`{t.name}` must be a boolean".toList
  | .notInteger l => s!"`{l.name}` must be an integer".toList
  | .notPositive l => s!"`{l.name}` must be a positive integer".toList
  | .invalidTable path file =>
    "Invalid `[".toList ++ ['.'].intercalate path ++ "]` settings in ".toList ++ file

namespace Settings

def byDefault : Settings where
  get
    | .toggle t => .bool t.byDefault
    | .limit l => .integer l.byDefault

def set (s : Settings) (key : Setting) (v : Value) : Settings where
  get k := if k = key then v else s.get k

@[simp] theorem get_set (s : Settings) (key k : Setting) (v : Value) :
    (s.set key v).get k = if k = key then v else s.get k := rfl

/-- Gives values to settings by their names, in order; `none` if a name is unknown. -/
def setAll (s : Settings) : List (Text × Value) → Option Settings
  | [] => some s
  | (name, v) :: rest => (Setting.ofName? name).bind fun key => (s.set key v).setAll rest

/-- The name of the settings that are overridden, which no override can have. -/
def reservedName : Text := "config".toList

/-- Overrides settings by their names, where a value is not null; `none` if a name is unknown
or, whatever its value, reserved. -/
def override (s : Settings) (overrides : List (Text × Value)) : Option Settings :=
  if overrides.any fun entry => entry.1 == reservedName then none
  else s.setAll (overrides.filter fun entry => !entry.2.isNull)

/-- The first thing that is wrong: a toggle that is no boolean, then a limit that is no
integer, then one that is not positive. -/
def firstError (s : Settings) : Option SettingsError :=
  ((Toggle.all.find? fun t => (s.get (.toggle t)).toBool?.isNone).map .notBoolean) <|>
    ((Limit.all.find? fun l => (s.get (.limit l)).toInt?.isNone).map .notInteger) <|>
    ((Limit.all.find? fun l => (s.get (.limit l)).toInt?.any (· ≤ 0)).map .notPositive)

/-- The options that the settings give, each value taken as it is best understood. -/
def toOptions (s : Settings) : Options where
  on t := (s.get (.toggle t)).isSet
  limit l := ((s.get (.limit l)).toInt?.getD 0).toNat

/-- The options that the settings give, if all values are of their types. -/
def validate (s : Settings) : Except SettingsError Options :=
  match s.firstError with
  | some e => .error e
  | none => .ok s.toOptions

/-- The settings of a table that was found in a file: dashes and underscores in keys are
the same, and a null table is an empty one. -/
def ofTable (v : Value) (path : List Text) (file : Text) : Except SettingsError Settings :=
  match v with
  | .null => .ok byDefault
  | .table entries =>
    let plain := entries.map fun entry =>
      (entry.1.map fun c => if c == '-' then '_' else c, entry.2)
    match byDefault.setAll plain with
    | some s => .ok s
    | none => .error (.invalidTable path file)
  | _ => .error (.invalidTable path file)

end Settings

end NimMarkdown
