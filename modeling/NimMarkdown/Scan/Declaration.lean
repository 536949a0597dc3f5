import NimMarkdown.Line.Export
import NimMarkdown.Line.Heading
import NimMarkdown.Line.Keyword
import NimMarkdown.Line.Signature
import NimMarkdown.Scan.State
import NimMarkdown.Line.Comment

/-!
# Declarations

A routine is declared by a signature of one or more lines, any other element by
one line. A finished signature is registered in the outline, unless only
exported elements are wanted and it is not exported.
-/

namespace NimMarkdown.Scan

/-- Adds a declaration to the outline, or leaves it out. -/
def register (s : Scan) (d : Declaration) : Scan :=
  if s.exportedOnly && !d.isExported then
    note { s with current := none, admitting := false }
      (.discarded (d.heading.getD []) d.lineNumber)
  else
    { s with
      outline := s.outline.add d
      current := some s.outline.declarations.length
      admitting := true
      lastCategory := some d.category }

/-- Registers the signature that has been read so far, if there is one. -/
def flushPending (s : Scan) : Scan :=
  match s.pending.lines with
  | [] => s
  | first :: rest =>
    register { s with pending := { s.pending with lines := [] } }
      { lineNumber := s.pending.lineNumber
        isExported := (first :: rest).any Line.isExported
        category := .ofRoutine (Line.routine? first)
        heading := some (Line.declarationHeading first)
        code := first.strip :: rest.map Text.stripRight }

/-- Doc lines belong to no declaration from here on. -/
def endDeclaration (s : Scan) : Scan := { s with current := none, narrative := none }

/-- The first line of a signature. -/
def startDeclaration (s : Scan) (line : Text) (lineNumber : Int) : Scan :=
  let s' := { s.flushPending.endDeclaration with pending := { lines := [line], lineNumber } }
  if Line.endsSignature line then s'.flushPending else s'

/-- A further line of a signature. -/
def continueDeclaration (s : Scan) (line : Text) : Scan :=
  let s' := { s with pending := { s.pending with lines := s.pending.lines ++ [line] } }
  if Line.endsSignature line then s'.flushPending else s'

/-- An element on one line, with the doc text beside it. -/
def declareLine (s : Scan) (code doc : Text) (lineNumber : Int) (category : Category) : Scan :=
  s.endDeclaration.register
    { lineNumber
      isExported := Line.isExported code
      category
      heading := some (Line.declarationHeading code)
      code := [code.strip]
      comment := if doc.isEmpty || Line.isTodo doc then [] else [doc] }

/-- The category of an element on one line: by its own keyword, else by the section it
stands in. -/
def lineCategory (s : Scan) (code : Text) : Category :=
  match Line.routine? code with
  | some kind => .routine kind
  | none =>
    let keyword := if code.indent == 0 then Line.sectionStart? code.strip else none
    match keyword with
    | some (category, _) => category
    | none => s.openSection.category.getD .other

/-- A line with code and a doc comment beside it is an element of its own. It takes the
place of a signature that is not finished. -/
def inlineDoc (s : Scan) (code doc : Text) (lineNumber : Int) : Scan :=
  let noted :=
    if s.pending.lines.isEmpty then s
    else note { s with pending := { s.pending with lines := [] } }
      (.replaced lineNumber s.pending.lineNumber)
  let opened :=
    if code.indent == 0 then ({} : OpenSection)
    else if s.openSection.category.isSome && s.openSection.indent.isNone then
      { s.openSection with indent := some code.indent }
    else s.openSection
  declareLine { noted with openSection := opened } code doc lineNumber (s.lineCategory code)

end NimMarkdown.Scan
