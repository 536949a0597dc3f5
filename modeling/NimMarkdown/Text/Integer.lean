import NimMarkdown.Text.Digit

/-!
# Integers in a text

An integer is written with blanks around it, a sign, and decimal digits of any
script with single underscores between them. The information separators do not
count as blanks here. Numbers of more than 4300 digits, leading zeros included,
are refused.
-/

namespace NimMarkdown.Text

/-- A blank that may stand around a number. -/
def isNumberBlank (c : Char) : Bool := isBlank c && !(28 ≤ c.toNat && c.toNat ≤ 31)

/-- The values of digits with single underscores between them; the empty text has none. -/
def digits? : Text → Option (List Nat)
  | [] => none
  | [c] => (digitValue? c).map ([·])
  | c :: '_' :: rest => do
    let d ← digitValue? c
    let ds ← digits? rest
    return d :: ds
  | c :: rest => do
    let d ← digitValue? c
    let ds ← digits? rest
    return d :: ds

def maxDigits : Nat := 4300

/-- The number with the given decimal digits. -/
def ofDigits (ds : List Nat) : Nat := ds.foldl (fun n d => 10 * n + d) 0

/-- The natural number that a text of digits stands for. -/
def natural? (t : Text) : Option Nat :=
  (digits? t).bind fun ds => if ds.length ≤ maxDigits then some (ofDigits ds) else none

def integer? (t : Text) : Option Int :=
  match dropEndWhile isNumberBlank (t.dropWhile isNumberBlank) with
  | '+' :: rest => (natural? rest).map Int.ofNat
  | '-' :: rest => (natural? rest).map fun n => -Int.ofNat n
  | rest => (natural? rest).map Int.ofNat

end NimMarkdown.Text
