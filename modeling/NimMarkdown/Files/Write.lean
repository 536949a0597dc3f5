import NimMarkdown.Files.Read

/-!
# Writing files

A document is written to a temporary file in the directory of its destination,
which is then renamed. What stands under the name of the temporary file at the end
is removed, so a failed write leaves the tree as it was.
-/

namespace NimMarkdown

def endedLines (lines : List Text) : Text := lines.flatMap fun line => line ++ ['\n']

namespace Host

def newFileMode : Nat := 0o644

/-- The mode bits that the file at a path will have: those of the file that is
overwritten, which has to be a regular one. -/
def modeToWrite (h : Host) (p : Path) (overwrite : Bool) : Except FileError Nat := do
  let found ← (h.exists? p).mapError .system
  let found ← if found then pure true else (h.isLink? p).mapError .system
  if found then
    if overwrite then
      let file ← h.regularFile p
      return file.mode
    else .error (.alreadyExists p)
  else return newFileMode

/-- A temporary file: its path as it is named in messages, and its location. -/
structure Temporary where
  path : Path
  loc : Location
  deriving DecidableEq, Repr

/-- The first of the drawn names that is free in a directory. -/
def freeSlot (h : Host) (directory : Path) : List Draw → Except SystemError Temporary
  | [] => .error (.refused ⟨.noFreeName, []⟩)
  | draw :: draws =>
    let path := directory.child draw.name
    let failed (errno : Errno) : SystemError := .refused ⟨errno, [path.toText]⟩
    match h.tree.slot h.workingDirectory path with
    | .error errno => .error (failed errno)
    | .ok loc =>
      if (h.tree.get? loc).isSome then h.freeSlot directory draws
      else match h.tree.fixed? loc with
        | some errno => .error (failed errno)
        | none => .ok ⟨path, loc⟩

def createTemporary (h : Host) (p : Path) : Except SystemError (Temporary × Host) :=
  if p.parent.hasNull then .error .nullByte
  else
    (h.freeSlot (FileTree.absolute h.workingDirectory p.parent) h.draws).map fun temporary =>
      (temporary, { h with tree := h.tree.put temporary.loc (.file 0o600 []) })

/-- Stores bytes in a temporary file, with the mode bits that it will have. -/
def fillTemporary (h : Host) (temporary : Temporary) (mode : Nat) (bytes : List Byte) :
    Except SystemError Host :=
  match h.storage bytes with
  | some errno => .error (.refused ⟨errno, []⟩)
  | none => .ok { h with tree := h.tree.put temporary.loc (.file mode bytes) }

/-- Why the user may not read a file of theirs with the mode bits. -/
def unreadableMode (h : Host) (mode : Nat) : Option Errno :=
  if h.superuser || mode.testBit 8 then none else some .denied

/-- Renames a temporary file with the mode bits and bytes to its destination. -/
def moveInPlace (h : Host) (temporary : Temporary) (p : Path) (mode : Nat) (bytes : List Byte) :
    Except SystemError Host :=
  let failed (errno : Errno) : SystemError :=
    .refused ⟨errno, [temporary.path.toText, p.toText]⟩
  if p.hasNull then .error .nullByte
  else match h.tree.slot h.workingDirectory p with
    | .error errno => .error (failed errno)
    | .ok loc =>
      match h.tree.fixed? loc with
      | some errno => .error (failed errno)
      | none =>
        .ok { h with
          tree := (h.tree.erase temporary.loc).putNew loc mode bytes (h.unreadableMode mode) }

/-- Removes what stands under the name of a temporary file. -/
def removeTemporary (h : Host) (temporary : Temporary) : Host :=
  { h with tree := h.tree.erase temporary.loc }

/-- Writes lines to a file. The host is the one after the attempt. -/
def writeLines (h : Host) (p : Path) (lines : List Text) (overwrite : Bool) :
    Except FileError Unit × Host :=
  match h.modeToWrite p overwrite with
  | .error e => (.error e, h)
  | .ok mode =>
    let bytes := Utf8.encode (endedLines lines)
    match h.createTemporary p with
    | .error cause => (.error (.ofWrite p cause), h)
    | .ok (temporary, created) =>
      match created.fillTemporary temporary mode bytes with
      | .error cause => (.error (.ofWrite p cause), created.removeTemporary temporary)
      | .ok filled =>
        match filled.moveInPlace temporary p mode bytes with
        | .error cause => (.error (.ofWrite p cause), filled.removeTemporary temporary)
        | .ok moved => (.ok (), moved.removeTemporary temporary)

end Host

end NimMarkdown
