import NimMarkdown.FileTree.Walk

/-!
# Canonical paths

The canonical form of a path is the path from the root to where it leads, with
every link resolved. It is found name by name: `..` drops the name before it, and a
link is replaced by the canonical form of its target. A link that is met again while
it is being resolved is a loop. Strictly, every name has to stand for something;
otherwise what is missing is taken as it is, and a loop ends the resolution: what is
left of the text is joined to the path as it stands.
-/

namespace NimMarkdown.FileTree

/-- The links that have been met, with their canonical form once it is known. -/
abbrev Resolved := List (Path × Option Path)

/-- A path on the way to its canonical form. -/
structure Resolution where
  path : Path
  /-- No loop has been met. -/
  complete : Bool
  seen : Resolved
  deriving DecidableEq, Repr

/-- The path with the last name dropped for `..`, where it has one to drop. -/
def up (p : Path) : Path :=
  match p.names.getLast? with
  | none => if p.isAbsolute then p else p.child ['.', '.']
  | some name => if name == ['.', '.'] then p.child ['.', '.'] else p.parent

inductive Met where
  | known (path : Path)
  /-- The link is to be resolved. -/
  | new
  | loop
  deriving DecidableEq, Repr

/-- What is known of a link. One that is met again while it is being resolved is a loop;
strictly, the system is asked to follow it, and its refusal is the answer. -/
def metLink (t : FileTree) (strict : Bool) (here : Location) (seen : Resolved) (link : Path) :
    Except SystemError Met :=
  match seen.lookup link with
  | some (some path) => .ok (.known path)
  | none => .ok .new
  | some none => if strict then (t.find true here link).map fun _ => .new else .ok .loop

inductive CanonicalError where
  | system (cause : SystemError)
  /-- The path runs into a loop of links. -/
  | loop (path : Text)
  /-- Links nest deeper than there is room for. -/
  | tooDeep
  deriving DecidableEq, Repr

/-- An error, of which a loop is told apart. -/
def CanonicalError.ofSystem : SystemError → CanonicalError
  | .refused ⟨.tooManyLinks, path :: _⟩ => .loop path
  | e => .system e

/-- Resolves the names of a text behind a path that is resolved; they may be empty or `.`. At a
link, `onLink` resolves its target. -/
def resolveNames (t : FileTree) (strict : Bool) (here : Location)
    (onLink : Resolved → Path → Text → Except CanonicalError Resolution) :
    Resolved → Path → List Text → Except CanonicalError Resolution
  | seen, p, [] => .ok ⟨p, true, seen⟩
  | seen, p, name :: rest =>
    if !Path.isProperName name then resolveNames t strict here onLink seen p rest
    else if name == ['.', '.'] then resolveNames t strict here onLink seen (up p) rest
    else
      let next := p.child name
      match t.find false here next with
      | .error e =>
        if strict || e = .nullByte then .error (.ofSystem e)
        else resolveNames t strict here onLink seen next rest
      | .ok (_, .link target) =>
        match metLink t strict here seen next with
        | .error e => .error (.ofSystem e)
        | .ok (.known known) => resolveNames t strict here onLink seen known rest
        | .ok .loop => .ok ⟨next.join (['/'].intercalate rest), false, seen⟩
        | .ok .new =>
          match onLink ((next, none) :: seen) p target with
          | .error e => .error e
          | .ok r =>
            if r.complete then
              resolveNames t strict here onLink ((next, some r.path) :: r.seen) r.path rest
            else .ok { r with path := r.path.join (['/'].intercalate rest) }
      | .ok _ => resolveNames t strict here onLink seen next rest

/-- Resolves the text of a path or of a link's target behind a path that is resolved;
`depth` bounds how deep links may nest. -/
def resolveText (t : FileTree) (strict : Bool) (here : Location) :
    (depth : Nat) → Resolved → Path → Text → Except CanonicalError Resolution
  | 0, _, _, _ => .error .tooDeep
  | depth + 1, seen, p, target =>
    resolveNames t strict here (resolveText t strict here depth) seen
      (if target.head? == some '/' then ⟨.root, []⟩ else p) (Path.splitNames target)

def pathOf (loc : Location) : Path := ⟨.root, loc⟩

/-- The path from the root that a path stands for if every `..` drops the name before it. -/
def absolute (here : Location) (p : Path) : Path :=
  if p.isAbsolute then { p with names := Path.collapse p.names }
  else pathOf (Path.collapse (here ++ p.names))

/-- The path from the root to where a path leads, all of whose names have to stand for
something. There is `room` for so many links, each in the target of the one before. -/
def canonical (t : FileTree) (room : Nat) (here : Location) (p : Path) :
    Except CanonicalError Path :=
  match resolveText t true here (room + 1) [] ⟨.relative, []⟩ p.toText with
  | .error e => .error e
  | .ok r => .ok (absolute here r.path)

/-- The path from the root to where a path leads; what is missing is taken as it is. -/
def canonicalLax (t : FileTree) (room : Nat) (here : Location) (p : Path) :
    Except CanonicalError Path :=
  match resolveText t false here (room + 1) [] ⟨.relative, []⟩ p.toText with
  | .error e => .error e
  | .ok r =>
    let resolved := absolute here r.path
    match t.find true here resolved with
    | .error .nullByte => .error (.system .nullByte)
    | .error (.refused ⟨.tooManyLinks, path :: _⟩) => .error (.loop path)
    | _ => .ok resolved

end NimMarkdown.FileTree
