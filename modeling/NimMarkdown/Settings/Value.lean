import NimMarkdown.Text.Basic

/-!
# Values of settings

A settings table may hold values of any type of its format; whether a setting is
given a value of its own type is checked later. Floats, dates and times keep the
literal that was read: no setting takes one.
-/

namespace NimMarkdown

/-- A value as a settings table holds it. -/
inductive Value where
  | null
  | bool (b : Bool)
  | integer (n : Int)
  | float (literal : Text)
  | string (text : Text)
  | date (literal : Text)
  | dateTime (literal : Text)
  | time (literal : Text)
  | array (items : List Value)
  | table (entries : List (Text × Value))
  deriving Inhabited, Repr

namespace Value

def toBool? : Value → Option Bool
  | .bool b => some b
  | _ => none

def toInt? : Value → Option Int
  | .integer n => some n
  | _ => none

def isNull : Value → Bool
  | .null => true
  | _ => false

/-- The mantissa of a float literal is zero. -/
def isZeroLiteral (literal : Text) : Bool :=
  (literal.takeWhile fun c => c != 'e' && c != 'E').all fun c => !c.isAlphanum || c == '0'

/-- Whether a value of any type counts as set: all do but `null`, `false`, zero, and what
is empty. -/
def isSet : Value → Bool
  | .null => false
  | .bool b => b
  | .integer n => n != 0
  | .float literal => !isZeroLiteral literal
  | .string text => !text.isEmpty
  | .array items => !items.isEmpty
  | .table entries => !entries.isEmpty
  | .date _ => true
  | .dateTime _ => true
  | .time _ => true

/-- The value that a path of keys leads to, through tables. -/
def atPath : Value → List Text → Option Value
  | v, [] => some v
  | .table entries, key :: rest =>
    match entries.lookup key with
    | some v => v.atPath rest
    | none => none
  | _, _ :: _ => none

end Value

end NimMarkdown
