import NimMarkdown.Line.Entry
import NimMarkdown.Scan.Declaration

/-!
# Sections

A `const`, `let`, `var` or `type` keyword alone on its line opens a section; the
lines below it at the indent of the first one are its entries. With something
behind it, the keyword declares a single element.
-/

namespace NimMarkdown.Scan

/-- A line without indent: it closes the open section, and may open one. -/
def sectionStart (s : Scan) (text : Text) (lineNumber : Int) : Bool × Scan :=
  match Line.sectionStart? text with
  | none => (false, { s with openSection := {} })
  | some (category, rest) =>
    let s := { s.endDeclaration with openSection := {} }
    if rest.isEmpty then (true, { s with openSection := { category := some category } })
    else if Line.isEntry rest then (true, s.declareLine text [] lineNumber category)
    else (true, s)

/-- An indented line: an entry of the open section, or not. -/
def sectionEntry (s : Scan) (text : Text) (indent : Nat) (lineNumber : Int) : Bool × Scan :=
  match s.openSection.category with
  | none => (false, s)
  | some category =>
    let entryIndent := s.openSection.indent.getD indent
    let s := { s with openSection := { s.openSection with indent := some entryIndent } }
    if indent == entryIndent && Line.isEntry text then
      (true, s.declareLine text [] lineNumber category)
    else (false, s)

/-- A line that may belong to a section. The answer says whether it does. -/
def sectionLine (s : Scan) (line : Text) (lineNumber : Int) : Bool × Scan :=
  if line.indent == 0 then s.sectionStart line.strip lineNumber
  else s.sectionEntry line.strip line.indent lineNumber

end NimMarkdown.Scan
