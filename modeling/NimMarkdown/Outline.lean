import NimMarkdown.Category
import NimMarkdown.Text.Basic

/-!
# Outlines

The outline of a source is what its document is made of: the top matter, the
bullets of its imports and includes, and its declarations in the order in which
they were found. `Outline.ofCategory` is the view of one category. A place names
one of the growing texts of an outline: the top matter or the comment of a
declaration.
-/

namespace NimMarkdown

/-- One documented element. Without a heading it is a narrative: a comment that
belongs to no element. -/
structure Declaration where
  lineNumber : Int
  isExported : Bool
  category : Category
  heading : Option Text
  code : List Text := []
  comment : List Text := []
  examples : List Text := []
  deriving DecidableEq, Repr

structure Outline where
  topMatter : List Text := []
  imports : List Text := []
  includes : List Text := []
  declarations : List Declaration := []
  deriving DecidableEq, Repr

/-- Where doc lines go: the top matter, or the comment of the declaration with an index. -/
inductive Place where
  | topMatter
  | comment (index : Nat)
  deriving DecidableEq, Repr

namespace Outline

def ofCategory (o : Outline) (category : Category) : List Declaration :=
  o.declarations.filter (·.category == category)

def add (o : Outline) (d : Declaration) : Outline :=
  { o with declarations := o.declarations ++ [d] }

def modify (o : Outline) (index : Nat) (f : Declaration → Declaration) : Outline :=
  { o with declarations := o.declarations.modify index f }

def linesAt (o : Outline) : Place → List Text
  | .topMatter => o.topMatter
  | .comment index => ((o.declarations[index]?).map Declaration.comment).getD []

def modifyLines (o : Outline) (place : Place) (f : List Text → List Text) : Outline :=
  match place with
  | .topMatter => { o with topMatter := f o.topMatter }
  | .comment index => o.modify index fun d => { d with comment := f d.comment }

def appendLine (o : Outline) (place : Place) (line : Text) : Outline :=
  o.modifyLines place (· ++ [line])

/-- Puts another line in place of the last one. -/
def replaceLast (o : Outline) (place : Place) (line : Text) : Outline :=
  o.modifyLines place (·.dropLast ++ [line])

theorem ofCategory_add (o : Outline) (d : Declaration) (category : Category) :
    (o.add d).ofCategory category =
      o.ofCategory category ++ if d.category = category then [d] else [] := by
  by_cases h : d.category = category <;> simp [ofCategory, add, List.filter_append, h]

end Outline

end NimMarkdown
