import NimMarkdown.Toml.Reader

/-!
# Documents of TOML

A document is a sequence of statements, one a line: entries, and the headers of
tables and of arrays of tables. A table may be made by one header only, and one
that dotted keys have made may not be opened by a header of a later section;
nothing may be added to an inline table or array.
-/

namespace NimMarkdown.Toml

/-- A document that has been read up to some statement. -/
structure Draft where
  root : Entries := []
  /-- The table that entries are added to. -/
  header : List Text := []
  /-- The tables that a header may not make any more. -/
  declared : List (List Text) := []
  /-- The tables that dotted keys of this section have made. -/
  dotted : List (List Text) := []
  /-- The inline tables and arrays. -/
  closed : List (List Text) := []

namespace Draft

def addEntry (d : Draft) (path : List Text) (v : Value) : Option Draft :=
  let parents := (List.range (path.length - 1)).map fun n => d.header ++ path.take (n + 1)
  let table := d.header ++ path.dropLast
  if parents.any d.declared.contains || isBelow d.closed table then none
  else (modifyAt true (insert (path.getLastD []) v) table d.root).map fun root =>
    { d with
      root
      dotted := d.dotted ++ parents
      closed := if isContainer v then (d.header ++ path) :: d.closed else d.closed }

/-- The header of a section ends the one before it. -/
def endSection (d : Draft) : Draft :=
  { d with declared := d.declared ++ d.dotted, dotted := [] }

def openTable (d : Draft) (path : List Text) : Option Draft :=
  if d.declared.contains path || isBelow d.closed path then none
  else (modifyAt true some path d.root).map fun root =>
    { d with root, header := path, declared := path :: d.declared }

/-- The header of one more table in an array of tables. What was said about tables below it
holds for the table before it only. -/
def openArrayTable (d : Draft) (path : List Text) : Option Draft :=
  if isBelow d.closed path then none
  else (modifyAt true (appendTable (path.getLastD [])) path.dropLast d.root).map fun root =>
    { d with
      root
      header := path
      declared := path :: d.declared.filter fun other => !path.isPrefixOf other
      closed := d.closed.filter fun other => !path.isPrefixOf other }

end Draft

/-- A result, or the error of a malformed document. -/
def orMalformed {α : Type} : Option α → Except Error α
  | some a => .ok a
  | none => .error .malformed

/-- The header of a section; the text is the one behind its first bracket. -/
def sectionHeader (d : Draft) (t : Text) : Except Error (Draft × Text) := do
  let d := d.endSection
  match t with
  | '[' :: rest =>
    let (path, rest) ← key (skipSpaces rest)
    let d ← orMalformed (d.openArrayTable path)
    match rest with
    | ']' :: ']' :: rest => return (d, rest)
    | _ => .error .malformed
  | _ =>
    let (path, rest) ← key (skipSpaces t)
    let d ← orMalformed (d.openTable path)
    match rest with
    | ']' :: rest => return (d, rest)
    | _ => .error .malformed

def statement (room : Nat) (d : Draft) (t : Text) : Except Error (Draft × Text) :=
  match t with
  | '#' :: _ => .ok (d, t)
  | '[' :: rest => sectionHeader d rest
  | c :: _ =>
    if startsKey c then do
      let ((path, v), rest) ← keyValue room t
      let d ← orMalformed (d.addEntry path v)
      return (d, rest)
    else .error .malformed
  | [] => .ok (d, [])

/-- Reads at most the given number of lines. -/
def statements (room : Nat) : (lines : Nat) → Draft → Text → Except Error Draft
  | 0, _, _ => .error .malformed
  | lines + 1, d, t =>
    match skipSpaces t with
    | [] => .ok d
    | '\n' :: rest => statements room lines d rest
    | t => do
      let (d, rest) ← statement room d t
      match ← skipComment (skipSpaces rest) with
      | [] => return d
      | '\n' :: rest => statements room lines d rest
      | _ => .error .malformed

/-- The text without each carriage return that has a line feed behind it. -/
def plainLineEndings : Text → Text
  | [] => []
  | '\r' :: '\n' :: rest => '\n' :: plainLineEndings rest
  | c :: rest => c :: plainLineEndings rest

/-- The table of a document; there is some room for its values to nest. -/
def parse (room : Nat) (t : Text) : Except Error Value :=
  let t := plainLineEndings t
  (statements room (t.length + 1) {} t).map fun d => .table d.root

end NimMarkdown.Toml
