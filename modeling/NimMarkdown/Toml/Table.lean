import NimMarkdown.Toml.Lexeme

/-!
# Tables of TOML

A table is the list of its entries in the order in which they were made. Tables
are changed at a path of keys; where a path leads to an array of tables it goes
on in the last of them.
-/

namespace NimMarkdown.Toml

abbrev Entries := List (Text × Value)

/-- Puts another value at a key that is there. -/
def replace (entries : Entries) (name : Text) (v : Value) : Entries :=
  entries.map fun entry => if entry.1 == name then (name, v) else entry

/-- Changes the table at a path. Tables that are missing on the way are made; `none` if
something else than a table stands on the way, or if the change fails. Arrays on the way
are entered if `intoArrays` says so. -/
def modifyAt (intoArrays : Bool) (f : Entries → Option Entries) :
    List Text → Entries → Option Entries
  | [], entries => f entries
  | name :: path, entries =>
    match entries.lookup name with
    | none =>
      (modifyAt intoArrays f path []).map fun inner => entries ++ [(name, .table inner)]
    | some (.table inner) =>
      (modifyAt intoArrays f path inner).map fun inner => replace entries name (.table inner)
    | some (.array items) =>
      match intoArrays, items.getLast? with
      | true, some (.table inner) =>
        (modifyAt intoArrays f path inner).map fun inner =>
          replace entries name (.array (items.dropLast ++ [.table inner]))
      | _, _ => none
    | some _ => none

def insert (name : Text) (v : Value) (entries : Entries) : Option Entries :=
  if (entries.lookup name).isSome then none else some (entries ++ [(name, v)])

/-- Adds an empty table to the array of tables at a key, which is made if it is missing. -/
def appendTable (name : Text) (entries : Entries) : Option Entries :=
  match entries.lookup name with
  | none => some (entries ++ [(name, .array [.table []])])
  | some (.array items) => some (replace entries name (.array (items ++ [.table []])))
  | some _ => none

/-- The key is, or lies below, one of the given ones. -/
def isBelow (keys : List (List Text)) (path : List Text) : Bool :=
  keys.any fun other => !other.isEmpty && other.isPrefixOf path

/-- A value that nothing may be added to once it is written. -/
def isContainer : Value → Bool
  | .table _ => true
  | .array _ => true
  | _ => false

end NimMarkdown.Toml
