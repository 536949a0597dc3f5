import NimMarkdown.Scan.Declaration
import NimMarkdown.Scan.TopMatter

/-!
# Doc lines in the code

A doc line goes to the comment of the current declaration. Where there is none it
starts a narrative: before the first declaration at the end of the top matter,
behind it as a declaration without heading in the latest category.
-/

namespace NimMarkdown.Scan

/-- The place of the next doc line, made if need be. -/
def commentPlace (s : Scan) : Place × Scan :=
  match s.current with
  | some index => (.comment index, s)
  | none =>
    match s.narrative with
    | some place => (place, s)
    | none =>
      match s.lastCategory with
      | none =>
        let s' := match s.outline.topMatter.getLast? with
          | some (_ :: _) => s.appendLine .topMatter []
          | _ => s
        (.topMatter, { s' with narrative := some .topMatter })
      | some category =>
        let place := Place.comment s.outline.declarations.length
        let narrative : Declaration :=
          { lineNumber := 0, isExported := true, category, heading := none }
        (place, { s with outline := s.outline.add narrative, narrative := some place })

/-- How much deeper than in the top matter a heading in a comment is: it nests below the
heading of its declaration. -/
def headingOffset : Place → Nat
  | .topMatter => 0
  | .comment _ => 3

/-- A doc text at a place, outside of code blocks. An underline makes a heading of the
line above it. -/
def docTextAt (s : Scan) (place : Place) (text : Text) : Scan :=
  let level := Line.underlineLevel text
  match (s.outline.linesAt place).getLast? with
  | none => if text.isBlankText then s else s.appendLine place text
  | some last =>
    if level != 0 && !last.isBlankText && !Text.startsWith fenceMark last then
      let heading := headingLine (level + headingOffset place) last
      { s with outline := s.outline.replaceLast place heading }
    else s.appendLine place text

/-- A doc line of the code. It ends a signature that is not finished. -/
def docLine (s : Scan) (line : Text) : Scan :=
  let text := Line.docText line
  if Line.isTodo text then s
  else
    let s := s.flushPending
    if s.admitting then
      let (place, s) := s.commentPlace
      if Line.isCodeBlock text then s.openFence place text else s.docTextAt place text
    else s

end NimMarkdown.Scan
