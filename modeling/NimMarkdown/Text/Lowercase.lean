import NimMarkdown.Text.Basic

/-!
# Lower case, as a search for an ASCII word sees it

Words such as `copyright` are looked for without regard to case. A letter has to
be lowered only if its lower case has an ASCII letter in it: the ASCII capitals,
the Kelvin sign, which lowers to `k`, and the capital I with a dot, which lowers
to `i` and a combining dot. Every other character keeps its form: neither it nor
its lower case can be part of an ASCII word.
-/

namespace NimMarkdown

/-- The lower case of a character, up to characters whose lower case is not ASCII. -/
def lowerChar (c : Char) : Text :=
  let n := c.toNat
  if 65 ≤ n && n ≤ 90 then [Char.ofNat (n + 32)]
  else if n == 0x212A then ['k']
  else if n == 0x0130 then ['i', Char.ofNat 0x0307]
  else [c]

/-- The lower case of a text, for the search of ASCII words in it. -/
def Text.lower (t : Text) : Text := t.flatMap lowerChar

end NimMarkdown
