import NimMarkdown.Text.Basic

/-!
# Lines of a text

A text is the sequence of its lines with a line feed between each two, so the
number of lines is one more than the number of line feeds and the empty text has
one empty line. `splitLines` and `joinLines` go between the two views. A file may
end its lines otherwise; `unifyLineEndings` is applied to what is read from one.
-/

namespace NimMarkdown.Text

/-- The lines of a text, without their line feeds. -/
def splitLines (t : Text) : List Text :=
  t.foldr
    (fun c lines =>
      if c = '\n' then [] :: lines
      else match lines with
        | [] => [[c]]
        | line :: rest => (c :: line) :: rest)
    [[]]

def joinLines (lines : List Text) : Text := ['\n'].intercalate lines

/-- A line without the carriage returns at its end. -/
def dropReturns (line : Text) : Text := dropEndWhile (· == '\r') line

/-- The text with every line ending written as one line feed: a carriage return with the
line feed behind it, or alone, ends a line too. -/
def unifyLineEndings (t : Text) : Text :=
  (t.foldr
    (fun c (feedNext, rest) =>
      if c = '\r' then (false, if feedNext then rest else '\n' :: rest)
      else (c = '\n', c :: rest))
    (false, [])).2

end NimMarkdown.Text
