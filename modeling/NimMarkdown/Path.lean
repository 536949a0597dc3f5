import NimMarkdown.Text.Lowercase

/-!
# Paths

A path is a sequence of names, absolute or relative. Its text has one slash
between each two names: empty names and `.` are dropped when a path is read, and
`..` stays. The relative path without names is `.`; a path that begins with
exactly two slashes keeps them.
-/

namespace NimMarkdown

/-- Where the names of a path start. -/
inductive Anchor where
  | relative | root | doubleRoot
  deriving DecidableEq, Repr

structure Path where
  anchor : Anchor
  names : List Text
  deriving DecidableEq, Repr

namespace Path

/-- The parts of a text between slashes. -/
def splitNames (t : Text) : List Text :=
  t.foldr
    (fun c names =>
      if c = '/' then [] :: names
      else match names with
        | [] => [[c]]
        | name :: rest => (c :: name) :: rest)
    [[]]

/-- Neither empty nor `.`. -/
def isProperName (name : Text) : Bool := !name.isEmpty && name != ['.']

/-- The path that a text stands for. -/
def ofText (t : Text) : Path where
  anchor :=
    match (t.takeWhile (· == '/')).length with
    | 0 => .relative
    | 2 => .doubleRoot
    | _ => .root
  names := (splitNames t).filter isProperName

/-- The text of a path. -/
def toText (p : Path) : Text :=
  let names := ['/'].intercalate p.names
  match p.anchor with
  | .relative => if names.isEmpty then ['.'] else names
  | .root => '/' :: names
  | .doubleRoot => '/' :: '/' :: names

def isAbsolute (p : Path) : Bool := p.anchor != .relative

/-- A name has a null character. No file can have such a name, and the system takes no such
path. -/
def hasNull (p : Path) : Bool := p.names.any (·.contains '\x00')

/-- The path without its last name. -/
def parent (p : Path) : Path := { p with names := p.names.dropLast }

/-- The path and its parents, up to where its names start. -/
def upward (p : Path) : List Path :=
  (List.range (p.names.length + 1)).map fun n =>
    { p with names := p.names.take (p.names.length - n) }

/-- The path with a name added. -/
def child (p : Path) (name : Text) : Path := { p with names := p.names ++ [name] }

/-- The path that a text stands for behind a path: one that starts at the root stands for
itself. -/
def join (p : Path) (t : Text) : Path :=
  let q := ofText t
  if q.isAbsolute then q else { p with names := p.names ++ q.names }

/-- What the last name ends with, from its last dot. A dot at either end of the name does
not count. -/
def suffix (p : Path) : Text :=
  match p.names.getLast? with
  | none => []
  | some name =>
    let ending := (name.reverse.takeWhile (· != '.')).reverse
    if ending.isEmpty || name.length ≤ ending.length + 1 then [] else '.' :: ending

/-- The names with each `..` and the name before it dropped; at the root `..` leads nowhere. -/
def collapse (names : List Text) : List Text :=
  names.foldl (fun done name => if name == ['.', '.'] then done.dropLast else done ++ [name]) []

end Path

end NimMarkdown
