import NimMarkdown.Outline

/-!
# The state of a scan

A scan reads a source line by line and builds its outline. Besides the outline,
its state says which part of the source it is in (the top matter or the code),
what is open (a signature, a fenced code block, a section, a block of runnable
examples), and where the next doc line belongs.
-/

namespace NimMarkdown

/-- A signature of which not all lines have been read. -/
structure Pending where
  lines : List Text := []
  /-- The source line of the first of them. -/
  lineNumber : Int := 0
  deriving DecidableEq, Repr

/-- The fenced code block of a doc comment. -/
structure Fence where
  isOpen : Bool := false
  /-- No line of the body has been written yet. -/
  atStart : Bool := false
  /-- The indent that is taken from every line of the body. -/
  indent : Option Nat := none
  /-- A blank line is held back until the next line shows whether the block goes on. -/
  blankHeld : Bool := false
  /-- Where the lines of the block go. -/
  place : Option Place := none
  deriving DecidableEq, Repr

/-- The `const`, `let`, `var` or `type` section that is open. -/
structure OpenSection where
  category : Option Category := none
  /-- The indent of its entries, fixed by the first line. -/
  indent : Option Nat := none
  deriving DecidableEq, Repr

/-- The block of runnable examples that is being read. -/
structure Capture where
  active : Bool := false
  /-- The indent of the line that opened the block. -/
  indent : Nat := 0
  /-- The indent that is taken from every line of the block. -/
  bodyIndent : Option Nat := none
  deriving DecidableEq, Repr

/-- What a scan tells about its work. -/
inductive Event where
  /-- The code begins at a line. -/
  | codeReached (lineNumber : Int)
  /-- An element that is not exported was left out. -/
  | discarded (heading : Text) (lineNumber : Int)
  /-- An element on one line took the place of an unfinished signature. -/
  | replaced (lineNumber pendingLine : Int)
  deriving DecidableEq, Repr

structure Scan where
  /-- Elements that are not exported are left out. -/
  exportedOnly : Bool := false
  /-- A line of the top matter, held back until the next shows whether it is a heading. -/
  held : Option Text := none
  /-- The module's doc comment, or its code, has begun. -/
  docSeen : Bool := false
  copyrightSeen : Bool := false
  /-- The top matter is over. -/
  inCode : Bool := false
  /-- Doc lines are taken; not so below an element that was left out. -/
  admitting : Bool := true
  pending : Pending := {}
  fence : Fence := {}
  /-- The declaration that doc lines belong to, by its index. -/
  current : Option Nat := none
  /-- Where doc lines go that belong to no declaration. -/
  narrative : Option Place := none
  /-- The category of the latest declaration. -/
  lastCategory : Option Category := none
  openSection : OpenSection := {}
  capture : Capture := {}
  outline : Outline := {}
  log : List Event := []
  deriving DecidableEq, Repr

inductive Fault where
  /-- A line of a code block has no place to go. -/
  | noPlace
  /-- The first character of an empty text is asked for. -/
  | noCharacter
  deriving DecidableEq, Repr

def Fault.message : Fault → Text
  | .noPlace => "A line of a code block has no place to go".toList
  | .noCharacter => "string index out of range".toList

/-- A step that failed, with the state it has come to. -/
structure Failure where
  fault : Fault
  scan : Scan
  deriving DecidableEq, Repr

def Scan.note (s : Scan) (event : Event) : Scan := { s with log := s.log ++ [event] }

def Scan.appendLine (s : Scan) (place : Place) (line : Text) : Scan :=
  { s with outline := s.outline.appendLine place line }

end NimMarkdown
