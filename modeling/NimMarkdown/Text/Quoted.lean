import NimMarkdown.Text.Printable

/-!
# Quoted texts

A text in a message is set in single quotes, or in double quotes if it has single
quotes and no double quote. Inside, the backslash and the quote are escaped, and
so is every character that is not printable.
-/

namespace NimMarkdown.Text

/-- The last `width` hexadecimal digits of a number. -/
def hexDigits : (width : Nat) → Nat → Text
  | 0, _ => []
  | width + 1, n => hexDigits width (n / 16) ++ [Nat.digitChar (n % 16)]

def quoteChar (quote c : Char) : Text :=
  let n := c.toNat
  if c == quote || c == '\\' then ['\\', c]
  else if c == '\n' then ['\\', 'n']
  else if c == '\r' then ['\\', 'r']
  else if c == '\t' then ['\\', 't']
  else if isPrintable c then [c]
  else if n < 0x100 then '\\' :: 'x' :: hexDigits 2 n
  else if n < 0x10000 then '\\' :: 'u' :: hexDigits 4 n
  else '\\' :: 'U' :: hexDigits 8 n

/-- The quote that a text is set in. -/
def quoteFor (t : Text) : Char := if t.contains '\'' && !t.contains '"' then '"' else '\''

def quoted (t : Text) : Text :=
  quoteFor t :: (t.flatMap (quoteChar (quoteFor t)) ++ [quoteFor t])

end NimMarkdown.Text
