import NimMarkdown.Toml.Table

/-!
# Values of TOML

Arrays and inline tables hold values, so the readers call each other. Each call
takes one unit of `fuel`; between two calls at least every second time a
character has been read, so twice the length of the text is enough. There is
`room` for so much nesting: an array takes some of it from what it holds, and an
inline table takes more.
-/

namespace NimMarkdown.Toml

def arrayCost : Nat := 2

def tableCost : Nat := 3

/-- A value that holds no others. -/
def scalar (t : Text) : Except Error (Value × Text) :=
  if Text.startsWith "true".toList t then .ok (.bool true, t.drop 4)
  else if Text.startsWith "false".toList t then .ok (.bool false, t.drop 5)
  else match dateOrTime? t with
    | some r => r
    | none =>
      match number? t with
      | some r => r
      | none =>
        match specialFloat? t with
        | some r => .ok r
        | none => .error .malformed

def stringValue (r : Except Error (Text × Text)) : Except Error (Value × Text) :=
  r.map fun p => (.string p.1, p.2)

mutual

def value : (fuel room : Nat) → Text → Except Error (Value × Text)
  | 0, _, _ => .error .malformed
  | fuel + 1, room, t =>
    match t with
    | '"' :: '"' :: '"' :: rest =>
      stringValue ((basicLines (dropLineFeed rest)).map (closeLines '"'))
    | '"' :: rest => stringValue (basicString rest)
    | '\'' :: '\'' :: '\'' :: rest =>
      stringValue ((literalLines (dropLineFeed rest)).map (closeLines '\''))
    | '\'' :: rest => stringValue (literalString rest)
    | '[' :: rest =>
      if room < arrayCost then .error .tooDeep
      else arrayItems fuel (room - arrayCost) [] rest
    | '{' :: rest =>
      if room < tableCost then .error .tooDeep
      else match skipSpaces rest with
        | '}' :: rest => .ok (.table [], rest)
        | rest => tableItems fuel (room - tableCost) [] [] rest
    | _ => scalar t

/-- The items of an array behind those that have been read, in reverse order. -/
def arrayItems : (fuel room : Nat) → List Value → Text → Except Error (Value × Text)
  | 0, _, _, _ => .error .malformed
  | fuel + 1, room, done, t => do
    match ← skipFiller false t with
    | ']' :: rest => return (.array done.reverse, rest)
    | rest =>
      let (v, rest) ← value fuel room rest
      match ← skipFiller false rest with
      | ']' :: rest => return (.array (v :: done).reverse, rest)
      | ',' :: rest => arrayItems fuel room (v :: done) rest
      | _ => .error .malformed

/-- The entries of an inline table behind those that have been read; nothing may be added
below the keys of `closed`. -/
def tableItems :
    (fuel room : Nat) → Entries → List (List Text) → Text → Except Error (Value × Text)
  | 0, _, _, _, _ => .error .malformed
  | fuel + 1, room, entries, closed, t => do
    let (path, rest) ← key t
    match rest with
    | '=' :: rest =>
      let (v, rest) ← value fuel room (skipSpaces rest)
      if isBelow closed path then .error .malformed
      else match modifyAt false (insert (path.getLastD []) v) path.dropLast entries with
        | none => .error .malformed
        | some entries =>
          match skipSpaces rest with
          | '}' :: rest => return (.table entries, rest)
          | ',' :: rest =>
            tableItems fuel room entries (if isContainer v then path :: closed else closed)
              (skipSpaces rest)
          | _ => .error .malformed
    | _ => .error .malformed

end

/-- A dotted key with its value, for which there is some room. -/
def keyValue (room : Nat) (t : Text) : Except Error ((List Text × Value) × Text) := do
  let (path, rest) ← key t
  match rest with
  | '=' :: rest =>
    let (v, rest) ← value (2 * rest.length + 2) room (skipSpaces rest)
    return ((path, v), rest)
  | _ => .error .malformed

end NimMarkdown.Toml
