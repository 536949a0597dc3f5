import NimMarkdown.Text.Blank

/-!
# Texts

A text is a list of characters; a source line is a text. Positions, indents and
lengths count characters. This module has the operations on texts that the line
rules are written in: trimming, the indent, search for a part, and the cut at
the first occurrence of a separator.
-/

namespace NimMarkdown

/-- A text, as the list of its characters. -/
abbrev Text := List Char

/-- Drops the longest end of a list on which `p` holds throughout. -/
def dropEndWhile {α : Type} (p : α → Bool) (xs : List α) : List α :=
  xs.foldr (fun x rest => if rest.isEmpty && p x then [] else x :: rest) []

@[simp] theorem dropEndWhile_nil {α : Type} (p : α → Bool) : dropEndWhile p [] = [] := rfl

theorem dropEndWhile_cons {α : Type} (p : α → Bool) (x : α) (xs : List α) :
    dropEndWhile p (x :: xs) =
      if (dropEndWhile p xs).isEmpty && p x then [] else x :: dropEndWhile p xs := rfl

namespace Text

def stripLeft (t : Text) : Text := t.dropWhile isBlank

def stripRight (t : Text) : Text := dropEndWhile isBlank t

def strip (t : Text) : Text := stripRight (stripLeft t)

/-- Blanks only, possibly none. -/
def isBlankText (t : Text) : Bool := t.all isBlank

/-- The number of blanks at the start. -/
def indent (t : Text) : Nat := (t.takeWhile isBlank).length

def startsWith (start t : Text) : Bool := start.isPrefixOf t

/-- `part` stands somewhere in the text. -/
def hasPart (part : Text) : Text → Bool
  | [] => part.isEmpty
  | c :: r => startsWith part (c :: r) || hasPart part r

/-- The texts before and after the first `sep`, or `none` where there is none. -/
def cutAt (sep : Text) : Text → Option (Text × Text)
  | [] => if sep.isEmpty then some ([], []) else none
  | c :: r =>
    if startsWith sep (c :: r) then some ([], (c :: r).drop sep.length)
    else (cutAt sep r).map fun ends => (c :: ends.1, ends.2)

def dropSpace : Text → Text
  | ' ' :: r => r
  | t => t

end Text

end NimMarkdown
