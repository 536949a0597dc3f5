import NimMarkdown.FileTree.Basic

/-!
# Walking a file tree

A path is followed name by name. A link on the way is followed as well, and a link
at the end if that is asked for; after forty links the walk gives up. A walk ends
at a location where something stands, or with the reason why it cannot go on.
-/

namespace NimMarkdown

/-- The names that a path is followed by; the path without any is `.` to the system. -/
def Path.steps (p : Path) : List Text :=
  if p.names.isEmpty && !p.isAbsolute then [['.']] else p.names

namespace FileTree

def maxNameBytes : Nat := 255

def maxPathBytes : Nat := 4095

/-- The most links that a walk follows. -/
def maxLinks : Nat := 40

/-- The names that a text adds to a walk. A slash at its end asks for a directory; the empty name
stands for that. -/
def targetNames (target : Text) : List Text :=
  (Path.splitNames target).filter (!·.isEmpty) ++
    if target.getLast? == some '/' then [[]] else []

/-- Follows names from a directory, up to the first link to follow, at which `onLink` goes on. -/
def walkNames (t : FileTree) (follow : Bool)
    (onLink : Location → List Text → Except Errno (Location × Node)) :
    Location → List Text → Except Errno (Location × Node)
  | here, [] =>
    match t.get? here with
    | some node => .ok (here, node)
    | none => .error .noEntry
  | here, name :: rest =>
    match t.get? here with
    | none => .error .noEntry
    | some .directory =>
      if name.isEmpty then walkNames t follow onLink here rest
      else if t.closed.contains here then .error .denied
      else if name == ['.'] then walkNames t follow onLink here rest
      else if name == ['.', '.'] then walkNames t follow onLink here.dropLast rest
      else if (Utf8.encode name).length > maxNameBytes then .error .nameTooLong
      else match t.get? (here ++ [name]) with
        | none => .error .noEntry
        | some (.link target) =>
          if follow || !rest.isEmpty then
            onLink (if target.head? == some '/' then [] else here) (targetNames target ++ rest)
          else .ok (here ++ [name], .link target)
        | some _ => walkNames t follow onLink (here ++ [name]) rest
    | some _ => .error .notDirectory

/-- Follows names from a directory, and at most `links` links. -/
def walk (t : FileTree) (follow : Bool) :
    (links : Nat) → Location → List Text → Except Errno (Location × Node)
  | 0, here, names => walkNames t follow (fun _ _ => .error .tooManyLinks) here names
  | links + 1, here, names => walkNames t follow (walk t follow links) here names

/-- Where the names of a path start. -/
def base (here : Location) (p : Path) : Location := if p.isAbsolute then [] else here

/-- What stands where a path leads, seen from a directory. -/
def locate (t : FileTree) (follow : Bool) (here : Location) (p : Path) :
    Except Errno (Location × Node) :=
  if (Utf8.encode p.toText).length > maxPathBytes then .error .nameTooLong
  else walk t follow maxLinks (base here p) p.steps

/-- What stands where a path leads, if the system can be asked for it. -/
def find (t : FileTree) (follow : Bool) (here : Location) (p : Path) :
    Except SystemError (Location × Node) :=
  if p.hasNull then .error .nullByte
  else (t.locate follow here p).mapError fun errno => .refused ⟨errno, [p.toText]⟩

/-- Where something is made or replaced: the last name of a path, in the directory that the
names before it lead to. -/
def slot (t : FileTree) (here : Location) (p : Path) : Except Errno Location :=
  if (Utf8.encode p.toText).length > maxPathBytes then .error .nameTooLong
  else match walk t true maxLinks (base here p) p.names.dropLast, p.names.getLast? with
    | .error errno, _ => .error errno
    | .ok (directory, .directory), some name =>
      if t.closed.contains directory then .error .denied
      else .ok (directory ++ [name])
    | .ok _, _ => .error .notDirectory

end FileTree

end NimMarkdown
