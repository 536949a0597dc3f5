import NimMarkdown.Line.Name

/-!
# Imports and includes

A line that imports modules or includes files is listed as a bullet. A trailing
comment is left out. The keyword's length is cut from the start of the line, so
the rules expect a line without indent.
-/

namespace NimMarkdown.Line

/-- The line up to its first `#`, trimmed at the end. -/
def withoutComment (line : Text) : Text := Text.stripRight (line.takeWhile (· != '#'))

/-- The bullet of `import os, strutils` or of `from math import pow`. -/
def importBullet (line : Text) : Option Text :=
  let t := withoutComment line
  match leadingWord t with
  | none => none
  | some word =>
    if word == "import".toList then
      let modules := Text.strip (t.drop 6)
      if modules.isEmpty then none else some ("- ".toList ++ modules)
    else if word == "from".toList then
      (Text.cutAt " import ".toList (t.drop 4)).map fun (source, names) =>
        "- ".toList ++ source.strip ++ ": ".toList ++ names.strip
    else none

def dropQuotes (t : Text) : Text := dropEndWhile (· == '"') (t.dropWhile (· == '"'))

/-- The bullet of `include "system/inclrtl"`. -/
def includeBullet (line : Text) : Option Text :=
  let t := withoutComment line
  if leadingWord t == some "include".toList then
    let target := dropQuotes (Text.strip (t.drop 7))
    if target.isEmpty then none else some ("- ".toList ++ target)
  else none

end NimMarkdown.Line
