import NimMarkdown.Text.Basic

/-!
# Marks of Markdown

The lines that fence a code block, and headings.
-/

namespace NimMarkdown

/-- The line that closes a code block, and opens one without a language. -/
def fenceMark : Text := "```".toList

/-- The line that opens a block of source code. -/
def sourceFence : Text := "```nim".toList

/-- A heading of a level. -/
def headingLine (level : Nat) (text : Text) : Text :=
  List.replicate level '#' ++ ' ' :: text.strip

end NimMarkdown
