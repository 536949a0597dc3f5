/-!
# Options

The options of a rendering are nine toggles and two limits.
-/

namespace NimMarkdown

inductive Toggle where
  /-- Leave out what is not exported. -/
  | exportedOnly
  /-- A heading before each declaration. -/
  | headings
  /-- The lists of imports and includes. -/
  | imports
  /-- The heading above all declarations and one above each category. -/
  | types
  /-- The source line below each declaration. -/
  | lineNumbers
  | consts | lets | vars
  /-- The runnable examples. -/
  | examples
  deriving DecidableEq, Repr

/-- What is limited: the size of a file in bytes, the length of a line in characters. -/
inductive Limit where
  | fileSize | lineLength
  deriving DecidableEq, Repr

namespace Toggle

def all : List Toggle :=
  [.exportedOnly, .headings, .imports, .types, .lineNumbers, .consts, .lets, .vars, .examples]

/-- The name of the toggle in a settings table. -/
def name : Toggle → String
  | .exportedOnly => "only_public"
  | .headings => "include_headings"
  | .imports => "include_imports_section"
  | .types => "include_types_section"
  | .lineNumbers => "include_line_numbers"
  | .consts => "include_const_section"
  | .lets => "include_let_section"
  | .vars => "include_var_section"
  | .examples => "include_examples"

/-- Everything is shown, but for line numbers. -/
def byDefault : Toggle → Bool
  | .exportedOnly => false
  | .lineNumbers => false
  | _ => true

theorem mem_all (t : Toggle) : t ∈ all := by cases t <;> decide

end Toggle

namespace Limit

def all : List Limit := [.fileSize, .lineLength]

/-- The name of the limit in a settings table. -/
def name : Limit → String
  | .fileSize => "max_file_size"
  | .lineLength => "max_line_length"

def byDefault : Limit → Nat
  | .fileSize => 10485760
  | .lineLength => 10000

theorem mem_all (l : Limit) : l ∈ all := by cases l <;> decide

end Limit

structure Options where
  on : Toggle → Bool
  limit : Limit → Nat

end NimMarkdown
