/-!
# Blank characters

The white space of a source line: the ASCII control blanks, the four
information separators, the space, and the spaces and separators of the
Unicode property `White_Space`. A zero-width space or a byte order mark is not
blank.
-/

namespace NimMarkdown

/-- A blank character; what trimming removes and an indent is made of. -/
def isBlank (c : Char) : Bool :=
  let n := c.toNat
  (9 ≤ n && n ≤ 13) || (28 ≤ n && n ≤ 32) || n == 0x85 || n == 0xA0 || n == 0x1680 ||
    (0x2000 ≤ n && n ≤ 0x200A) || n == 0x2028 || n == 0x2029 || n == 0x202F || n == 0x205F ||
    n == 0x3000

end NimMarkdown
