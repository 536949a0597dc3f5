import NimMarkdown.FileTree.Canonical

/-!
# Hosts

A host is where the program runs: a file tree and what else the system gives the
program, such as the working directory, home directories, and environment variables.
-/

namespace NimMarkdown

/-- A character that may be drawn. -/
def isDrawn (c : Char) : Bool :=
  'a' ≤ c && c ≤ 'z' || '0' ≤ c && c ≤ '9' || c == '_'

/-- What is drawn for the name of a temporary file. -/
structure Draw where
  text : Text
  length : text.length = 8
  characters : text.all isDrawn = true

def Draw.name (d : Draw) : Text := "tmp".toList ++ d.text

/-- Some draw. -/
def Draw.first : Draw := ⟨"k3v9_x0q".toList, rfl, rfl⟩

structure Host where
  tree : FileTree
  workingDirectory : Location
  /-- The home directory of the user who runs the program. -/
  home : Text
  /-- The home directories of users by name. -/
  users : List (Text × Text) := []
  environment : List (Text × Text) := []
  /-- Mode bits do not keep the user from reading. -/
  superuser : Bool := true
  /-- What is drawn for the name of a temporary file, one draw after the other. -/
  draws : List Draw := [.first]
  /-- Why bytes cannot be stored. -/
  storage : List Byte → Option Errno := fun _ => none
  /-- How many links may nest where a path is resolved. -/
  linkRoom : Nat := 960
  /-- How much the values of a settings file may nest. -/
  valueRoom : Nat := 980

inductive HomeError where
  | unknown
  /-- The name of the user has a null character. -/
  | nullByte
  deriving DecidableEq, Repr

def HomeError.message : HomeError → Text
  | .unknown => "Could not determine home directory.".toList
  | .nullByte => SystemError.nullByte.message

namespace Host

def stat (h : Host) (p : Path) : Except SystemError (Location × Node) :=
  h.tree.find true h.workingDirectory p

/-- What a path leads to; a link at its end is not followed. -/
def lstat (h : Host) (p : Path) : Except SystemError (Location × Node) :=
  h.tree.find false h.workingDirectory p

/-- Something stands where the path leads. An error that is more than absence is raised. -/
def exists? (h : Host) (p : Path) : Except SystemError Bool :=
  match h.stat p with
  | .ok _ => .ok true
  | .error e => if e.isAbsence then .ok false else .error e

def isLink? (h : Host) (p : Path) : Except SystemError Bool :=
  match h.lstat p with
  | .ok (_, .link _) => .ok true
  | .ok _ => .ok false
  | .error e => if e.isAbsence then .ok false else .error e

def isFile? (h : Host) (p : Path) : Except SystemError Bool :=
  match h.stat p with
  | .ok (_, .file _ _) => .ok true
  | .ok _ => .ok false
  | .error e => if e.isAbsence then .ok false else .error e

def containsLink (h : Host) (p : Path) : Bool :=
  p.upward.any fun q =>
    match h.isLink? q with
    | .ok isLink => isLink
    | .error _ => false

/-- The home directory of a user, without slashes at its end. The user without a name is the
one who runs the program. -/
def homeOf (h : Host) (user : Text) : Except HomeError Text :=
  if user.contains '\x00' then .error .nullByte
  else
    match if user.isEmpty then some h.home else h.users.lookup user with
    | none => .error .unknown
    | some home =>
      let home := dropEndWhile (· == '/') home
      if home.head? == some '~' then .error .unknown
      else .ok (if home.isEmpty then ['/'] else home)

/-- The path with `~` or `~user` at its start replaced. -/
def expandHome (h : Host) (p : Path) : Except HomeError Path :=
  match p.anchor, p.names with
  | .relative, ('~' :: user) :: rest => do
    let home ← h.homeOf user
    let base := Path.ofText home
    return { base with names := base.names ++ rest }
  | _, _ => .ok p

end Host

end NimMarkdown
