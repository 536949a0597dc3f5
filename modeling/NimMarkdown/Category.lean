/-!
# Routines and categories

A documented element belongs to one category. The five kinds of routine have a
category each; the rest is constants, `let` and `var` variables, and other
elements, types among them. The order of `Category.all` is the order in which
the categories are written.
-/

namespace NimMarkdown

/-- The kinds of routine; methods and converters count as procs. -/
inductive Routine where
  | proc | func | template | macroDef | iterator
  deriving DecidableEq, Repr

inductive Category where
  | routine (kind : Routine)
  | consts | lets | vars | other
  deriving DecidableEq, Repr

namespace Category

/-- All categories, in the order in which they are written. -/
def all : List Category :=
  [.routine .proc, .routine .func, .routine .template, .routine .macroDef, .routine .iterator,
    .consts, .lets, .vars, .other]

/-- The category of a routine; what is no routine is `other`. -/
def ofRoutine : Option Routine → Category
  | some kind => .routine kind
  | none => .other

/-- The title of the category's part of the document. -/
def title : Category → String
  | .routine .proc => "Procs"
  | .routine .func => "Funcs"
  | .routine .template => "Templates"
  | .routine .macroDef => "Macros"
  | .routine .iterator => "Iterators"
  | .consts => "Consts"
  | .lets => "Lets"
  | .vars => "Vars"
  | .other => "Other"

theorem mem_all (c : Category) : c ∈ all := by
  cases c with
  | routine kind => cases kind <;> decide
  | _ => decide

end Category

end NimMarkdown
