import NimMarkdown.FileTree.Refusal
import NimMarkdown.Path
import NimMarkdown.Text.Utf8

/-!
# File trees

A file tree has regular files with their mode bits and bytes, directories, and
symbolic links. It is kept as the list of its entries by location, the names
from the root down; the root itself is a directory. Beside the entries it says what
its user may not do with them.
-/

namespace NimMarkdown

/-- Where something is in a file tree: the names from the root down. -/
abbrev Location := List Text

inductive Node where
  | file (mode : Nat) (bytes : List Byte)
  | link (target : Text)
  | directory
  deriving DecidableEq, Repr

structure FileTree where
  entries : List (Location × Node) := []
  /-- The directories in which no name may be looked up. -/
  closed : List Location := []
  /-- What may not be opened to read it, and why. -/
  unreadable : List (Location × Errno) := []
  /-- The directories whose names stay as they are, and other places where nothing is made or
  replaced, and why. -/
  fixed : List (Location × Errno) := []
  deriving DecidableEq, Repr

namespace FileTree

def get? (t : FileTree) (loc : Location) : Option Node :=
  if loc.isEmpty then some .directory else t.entries.lookup loc

def erase (t : FileTree) (loc : Location) : FileTree :=
  { t with entries := t.entries.filter fun entry => entry.1 != loc }

/-- The tree with a node at a location, in place of what stood there. -/
def put (t : FileTree) (loc : Location) (node : Node) : FileTree :=
  { t with entries := (t.erase loc).entries ++ [(loc, node)] }

/-- The tree with a new file at a location, which may be read or not. -/
def putNew (t : FileTree) (loc : Location) (mode : Nat) (bytes : List Byte)
    (unreadable : Option Errno) : FileTree :=
  { t.put loc (.file mode bytes) with
    unreadable := unreadable.toList.map (loc, ·) ++
      t.unreadable.filter fun entry => entry.1 != loc }

/-- Why nothing may be made or replaced at a location. -/
def fixed? (t : FileTree) (loc : Location) : Option Errno :=
  (t.fixed.lookup loc.dropLast).or (t.fixed.lookup loc)

/-- The tree with a directory at a location where nothing stands yet. -/
def ensureDirectory (t : FileTree) (loc : Location) : FileTree :=
  if (t.get? loc).isSome then t else t.put loc .directory

/-- The tree with a node at a location, and with directories above it where they are
missing. -/
def plant (t : FileTree) (loc : Location) (node : Node) : FileTree :=
  ((List.range loc.length).foldl (fun t n => t.ensureDirectory (loc.take n)) t).put loc node

/-- What stands below a location, by the names from there on. -/
def below (t : FileTree) (loc : Location) : List (Location × Node) :=
  t.entries.filterMap fun entry =>
    if loc.isPrefixOf entry.1 && entry.1 != loc then
      some (entry.1.drop loc.length, entry.2)
    else none

end FileTree

end NimMarkdown
