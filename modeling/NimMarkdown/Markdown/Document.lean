import NimMarkdown.Markdown.Mark
import NimMarkdown.Outline
import NimMarkdown.Settings.Options
import NimMarkdown.Text.Lines

/-!
# Documents

The document of an outline is made of chunks with one empty line between each
two: the top matter, the imports and includes, and then the declarations by
category.
-/

namespace NimMarkdown

/-- A rendered document, as the list of its lines. -/
structure Document where
  lines : List Text := []
  deriving DecidableEq, Repr

/-- The text of a document; the last line has no line feed. -/
def Document.text (d : Document) : Text := Text.joinLines d.lines

def Document.isEmpty (d : Document) : Bool := d.lines.isEmpty

/-- Without the blank lines at both ends. -/
def trimBlankLines (lines : List Text) : List Text :=
  dropEndWhile Text.isBlankText (lines.dropWhile Text.isBlankText)

/-- Adds a chunk, behind an empty line if something stands before it. -/
def appendChunk (lines chunk : List Text) : List Text :=
  if chunk.isEmpty then lines
  else if lines.isEmpty then chunk
  else lines ++ [] :: chunk

/-- The code of a declaration with its heading and source line; a narrative has none. -/
def Declaration.renderCode (d : Declaration) (on : Toggle → Bool) : List Text :=
  match d.heading with
  | none => []
  | some heading =>
    (if on .headings then ["### ".toList ++ heading] else []) ++
      sourceFence :: d.code ++ [fenceMark] ++
      (if on .lineNumbers then [s!"Line: {d.lineNumber}".toList] else [])

/-- The block of a declaration: code, comment and examples. -/
def Declaration.render (d : Declaration) (on : Toggle → Bool) : List Text :=
  let comment := trimBlankLines d.comment
  let gap : List Text :=
    if !comment.isEmpty && d.heading.isSome && on .lineNumbers then [[]] else []
  let block := d.renderCode on ++ gap ++ comment
  let examples := trimBlankLines d.examples
  if on .examples && !examples.isEmpty then
    appendChunk block
      ("**Example:**".toList :: [] :: sourceFence :: examples ++ [fenceMark])
  else block

def Category.isOn (on : Toggle → Bool) : Category → Bool
  | .consts => on .consts
  | .lets => on .lets
  | .vars => on .vars
  | _ => true

namespace Outline

/-- The categories that the document shows. -/
def shownCategories (o : Outline) (on : Toggle → Bool) : List Category :=
  Category.all.filter fun c => c.isOn on && !(o.ofCategory c).isEmpty

/-- The chunks of one category. -/
def categoryChunks (o : Outline) (on : Toggle → Bool) (c : Category) : List (List Text) :=
  (if on .types then [[s!"## {c.title}".toList]] else []) ++
    (o.ofCategory c).map fun d => d.render on

/-- A list of bullets under its heading, if there are any. -/
def bulletChunk (heading : String) (bullets : List Text) : List Text :=
  if bullets.isEmpty then [] else heading.toList :: [] :: bullets

/-- The chunks of the document; some may be empty. -/
def chunks (o : Outline) (on : Toggle → Bool) : List (List Text) :=
  let shown := o.shownCategories on
  trimBlankLines o.topMatter ::
    (if on .imports then
      [bulletChunk "# Imports" o.imports, bulletChunk "# Includes" o.includes]
    else []) ++
    (if !shown.isEmpty && on .types then [["# Types".toList]] else []) ++
    shown.flatMap fun c => o.categoryChunks on c

/-- The document of the outline. -/
def render (o : Outline) (on : Toggle → Bool) : Document :=
  ⟨(o.chunks on).foldl appendChunk []⟩

/-- The number of declarations in the categories that the document shows. -/
def shownCount (o : Outline) (on : Toggle → Bool) : Nat :=
  ((o.shownCategories on).flatMap o.ofCategory).length

end Outline

end NimMarkdown
