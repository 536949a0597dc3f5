import NimMarkdown.Category
import NimMarkdown.Line.Name

/-!
# Keywords

What a line opens is decided by its leading word as a whole, so no keyword
matches inside a longer word.
-/

namespace NimMarkdown.Line

def routineKeywords : List (Text × Routine) :=
  [("proc".toList, .proc), ("method".toList, .proc), ("converter".toList, .proc),
    ("func".toList, .func), ("template".toList, .template), ("macro".toList, .macroDef),
    ("iterator".toList, .iterator)]

/-- The kind of routine that a line opens. A line with a `#` in it opens none, so
commented-out code is inert. -/
def routine? (line : Text) : Option Routine :=
  if line.contains '#' then none
  else (leadingWord line).bind fun word => routineKeywords.lookup word

/-- The keywords that open a section; types are filed under `other`. -/
def sectionKeywords : List (Text × Category) :=
  [("const".toList, .consts), ("let".toList, .lets), ("var".toList, .vars),
    ("type".toList, .other)]

/-- The category of the section that a line opens, with what stands behind the keyword. -/
def sectionStart? (line : Text) : Option (Category × Text) :=
  (leadingWord line).bind fun word =>
    (sectionKeywords.lookup word).map fun category =>
      (category, Text.strip (line.drop word.length))

/-- The line that guards the code of a main module. -/
def isMainGuard (line : Text) : Bool := line.strip == "when isMainModule:".toList

/-- The line opens a block of runnable examples. -/
def opensExamples (line : Text) : Bool := leadingWord line == some "runnableExamples".toList

end NimMarkdown.Line
