import NimMarkdown.Settings.Options
import NimMarkdown.Text.Integer

/-!
# Limits from the environment

An environment variable may set a limit. Its value has to be a positive integer. No
variable can have a value with a null character.
-/

namespace NimMarkdown

inductive VariableError where
  | notInteger (variableName : String) (value : Text)
  | notPositive (variableName : String) (value : Int)
  | nullByte
  deriving DecidableEq, Repr

def VariableError.message : VariableError → Text
  | .notInteger variableName value =>
    s!"Invalid value for {variableName}: ".toList ++ value ++
      " (expected positive integer)".toList
  | .notPositive variableName value =>
    s!"{variableName} must be a positive integer, got {value}.".toList
  | .nullByte => "embedded null byte".toList

namespace Limit

/-- The environment variable that sets the limit. -/
def variableName : Limit → String
  | .fileSize => "NIMTOMD_MAX_FILE_SIZE"
  | .lineLength => "NIMTOMD_MAX_LINE_LENGTH"

/-- The limit that is in force, given the value of its variable, if that is set. -/
def inForce (l : Limit) (variableValue : Option Text) (otherwise : Int) :
    Except VariableError Int :=
  match variableValue with
  | none => .ok otherwise
  | some value =>
    if value.contains '\x00' then .error .nullByte
    else match Text.integer? value with
      | none => .error (.notInteger l.variableName value)
      | some n => if n ≤ 0 then .error (.notPositive l.variableName n) else .ok n

end Limit

end NimMarkdown
