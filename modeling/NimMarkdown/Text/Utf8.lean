import NimMarkdown.Text.Quoted

/-!
# UTF-8

`Utf8.encode` gives the bytes of a text, `Utf8.decode` the text of bytes or the
first error: where it is, how many bytes of an unfinished character it covers,
and what is wrong with the byte behind them. The decoder is a machine that takes
one byte a step.
-/

namespace NimMarkdown

abbrev Byte := UInt8

namespace Utf8

/-- What is wrong with a sequence of bytes. -/
inductive Reason where
  | invalidStart
  | invalidContinuation
  | unexpectedEnd
  deriving DecidableEq, Repr

def Reason.message : Reason → String
  | .invalidStart => "invalid start byte"
  | .invalidContinuation => "invalid continuation byte"
  | .unexpectedEnd => "unexpected end of data"

/-- The first place where bytes are not UTF-8. -/
structure DecodeError where
  reason : Reason
  /-- The position of the first byte of the character. -/
  position : Nat
  /-- The number of bytes that are at fault. -/
  length : Nat
  /-- The first of them. -/
  first : Byte
  deriving DecidableEq, Repr

def DecodeError.message (e : DecodeError) : Text :=
  let place :=
    if e.length == 1 then
      "byte 0x".toList ++ Text.hexDigits 2 e.first.toNat ++ s!" in position {e.position}".toList
    else s!"bytes in position {e.position}-{e.position + e.length - 1}".toList
  "'utf-8' codec can't decode ".toList ++ place ++ ": ".toList ++ e.reason.message.toList

/-- A character of which some bytes have been read. -/
structure Partial where
  first : Byte
  /-- The number of bytes that have been read. -/
  length : Nat
  /-- The number of bytes that are still to come. -/
  missing : Nat
  /-- The bits that have been read. -/
  bits : Nat
  /-- The bounds of the next byte, which keep out overlong forms and surrogates. -/
  low : Nat := 0x80
  high : Nat := 0xBF
  deriving DecidableEq, Repr

structure Decoder where
  /-- The characters so far, the last one first. -/
  done : List Char := []
  /-- The position of the next byte. -/
  position : Nat := 0
  pending : Option Partial := none
  deriving DecidableEq, Repr

/-- What the first byte of a character says, if it can be one. -/
def start (b : Byte) : Option Partial :=
  let n := b.toNat
  if 0xC2 ≤ n && n ≤ 0xDF then some { first := b, length := 1, missing := 1, bits := n - 0xC0 }
  else if n == 0xE0 then some { first := b, length := 1, missing := 2, bits := 0, low := 0xA0 }
  else if n == 0xED then some { first := b, length := 1, missing := 2, bits := 0xD, high := 0x9F }
  else if 0xE1 ≤ n && n ≤ 0xEF then some { first := b, length := 1, missing := 2, bits := n - 0xE0 }
  else if n == 0xF0 then some { first := b, length := 1, missing := 3, bits := 0, low := 0x90 }
  else if 0xF1 ≤ n && n ≤ 0xF3 then some { first := b, length := 1, missing := 3, bits := n - 0xF0 }
  else if n == 0xF4 then some { first := b, length := 1, missing := 3, bits := 4, high := 0x8F }
  else none

def step (d : Decoder) (b : Byte) : Except DecodeError Decoder :=
  match d.pending with
  | none =>
    if b.toNat < 0x80 then
      .ok { done := Char.ofNat b.toNat :: d.done, position := d.position + 1 }
    else match start b with
      | some p => .ok { d with position := d.position + 1, pending := some p }
      | none => .error ⟨.invalidStart, d.position, 1, b⟩
  | some p =>
    if p.low ≤ b.toNat && b.toNat ≤ p.high then
      let bits := p.bits * 64 + (b.toNat - 0x80)
      if p.missing == 1 then
        .ok { done := Char.ofNat bits :: d.done, position := d.position + 1 }
      else
        .ok { d with
          position := d.position + 1
          pending := some
            { first := p.first, length := p.length + 1, missing := p.missing - 1, bits } }
    else .error ⟨.invalidContinuation, d.position - p.length, p.length, p.first⟩

/-- The end of the bytes. -/
def finish (d : Decoder) : Except DecodeError Text :=
  match d.pending with
  | none => .ok d.done.reverse
  | some p => .error ⟨.unexpectedEnd, d.position - p.length, p.length, p.first⟩

/-- The text of bytes. -/
def decode (bytes : List Byte) : Except DecodeError Text :=
  (bytes.foldlM step {}).bind finish

def encodeChar (c : Char) : List Byte :=
  let n := c.toNat
  if n < 0x80 then [n.toUInt8]
  else if n < 0x800 then [(0xC0 + n / 64).toUInt8, (0x80 + n % 64).toUInt8]
  else if n < 0x10000 then
    [(0xE0 + n / 4096).toUInt8, (0x80 + n / 64 % 64).toUInt8, (0x80 + n % 64).toUInt8]
  else
    [(0xF0 + n / 262144).toUInt8, (0x80 + n / 4096 % 64).toUInt8, (0x80 + n / 64 % 64).toUInt8,
      (0x80 + n % 64).toUInt8]

def encode (t : Text) : List Byte := t.flatMap encodeChar

end Utf8

end NimMarkdown
