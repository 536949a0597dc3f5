import NimMarkdown.Command.Run

/-!
# The command

`main` looks up what a run with the given arguments may need, and makes a host of
it. The run itself is `Host.run`; then its output is written, and the files that
it changed.
-/

namespace NimMarkdown

def Host.givenPaths (h : Host) (items : List Command.Item) : List Path :=
  items.filterMap fun
    | .word w => (h.expandHome (Path.ofText w)).toOption
    | .output given =>
      match Command.outputPath given with
      | .ok path => (h.expandHome (Path.ofText path)).toOption
      | .error _ => none
    | .flag _ => none

/-- The paths that a run may look at: those that are given, and the settings files in the
directories above them. -/
def Host.neededPaths (h : Host) (args : List Text) : List Path :=
  match Command.readArguments args with
  | .error _ => []
  | .ok items =>
    (h.givenPaths items).flatMap fun p =>
      p :: (settingsCandidates (FileTree.absolute h.workingDirectory p).parent).map Prod.fst

/-- The users and their home directories, from lines of seven fields with colons between. -/
def accounts (lines : List Text) : List (Text × Text) :=
  lines.filterMap fun line =>
    match (String.ofList line).splitOn ":" with
    | [name, _, _, _, _, home, _] => some (name.toList, home.toList)
    | _ => none

def textOfLocation (loc : Location) : String := String.ofList (FileTree.pathOf loc).toText

/-- Adds the file that the system has at a location, if it can be read. -/
def addFile (t : FileTree) (loc : Location) : IO FileTree := do
  match ← (IO.FS.readBinFile (textOfLocation loc)).toBaseIO with
  | .ok bytes => return t.plant loc (.file Host.newFileMode bytes.toList)
  | .error _ =>
    let t := t.plant loc (.file Host.newFileMode [])
    return { t with unreadable := (loc, .denied) :: t.unreadable }

/-- Adds what the system has on the way along names from a directory. -/
def lookUp (t : FileTree) (here : Location) : List Text → IO FileTree
  | [] => return t
  | name :: rest => do
    if name == ['.', '.'] then lookUp t here.dropLast rest
    else
      let loc := here ++ [name]
      let file := (← IO.currentDir) / textOfLocation loc
      match ← file.symlinkMetadata.toBaseIO with
      | .error (.permissionDenied ..) => return { t with closed := here :: t.closed }
      | .error _ => return t
      | .ok found =>
        match found.type with
        | .file => addFile t loc
        | .symlink =>
          let target := match ← (IO.FS.realPath file).toBaseIO with
            | .ok real => real.toString.toList
            | .error _ => (FileTree.pathOf loc).toText
          let linked := t.plant loc (.link target)
          let real := (Path.ofText target).names
          if real == loc then return linked
          else if ← ((← IO.currentDir) / textOfLocation real).isDir then
            lookUp (linked.plant real .directory) real rest
          else addFile linked real
        | _ => lookUp (t.plant loc .directory) loc rest

/-- Writes the files in which two trees differ. -/
def save (before after : FileTree) : IO Unit := do
  for entry in after.entries do
    match entry.2 with
    | .file _ bytes =>
      if before.get? entry.1 != some entry.2 then
        IO.FS.writeBinFile (textOfLocation entry.1) (ByteArray.mk bytes.toArray)
    | _ => pure ()

/-- The host that the command runs on, with the part of its file tree that is needed. -/
def currentHost (args : List Text) : IO Host := do
  let here := (Path.ofText (← IO.currentDir).toString.toList).names
  let home := ((← IO.getEnv "HOME").getD "/").toList
  let known ← (IO.FS.lines "/etc/passwd").toBaseIO
  let users := match known with
    | .ok lines => accounts (lines.toList.map String.toList)
    | .error _ => []
  let environment ← Limit.all.filterMapM fun l => do
    return (← IO.getEnv l.variableName).map fun value =>
      (l.variableName.toList, value.toList)
  let bare : Host := { tree := {}, workingDirectory := here, home, users, environment }
  let tree ← (bare.neededPaths args).foldlM
    (fun t p => lookUp t (if p.isAbsolute then [] else here) p.names)
    (FileTree.plant {} here .directory)
  return { bare with tree }

end NimMarkdown

def main (args : List String) : IO UInt32 := do
  let args := args.map String.toList
  let host ← NimMarkdown.currentHost args
  let (outcome, after) := host.run args
  (← IO.getStdout).putStr (String.ofList outcome.output)
  let crash := (outcome.crash.map fun c => c.message ++ ['\n']).getD []
  (← IO.getStderr).putStr (String.ofList (outcome.messages ++ crash))
  NimMarkdown.save host.tree after.tree
  return UInt32.ofNat outcome.exitCode
