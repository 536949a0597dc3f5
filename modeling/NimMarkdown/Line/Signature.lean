import NimMarkdown.Text.Basic

/-!
# The end of a signature

A signature may run over several lines. A line ends it by one of five patterns:
it ends with `=`; a `)` is followed by a result type and `=`; a `)` is followed
by `=`; a pragma in braces is followed by `=`; or it ends with two bracket groups
side by side, as in a declaration without a body. The patterns look at
characters only and do not balance brackets.
-/

namespace NimMarkdown.Line

/-- `=` stands in the text before its first line feed. -/
def assignsOnLine (t : Text) : Bool := (t.takeWhile (· != '\n')).contains '='

/-- As in `proc foo() =`. -/
def endsWithAssignment (line : Text) : Bool := (line.stripRight).getLast? == some '='

/-- As in `...): int =`, possibly with code behind the `=`. -/
def closesParamsWithType : Text → Bool
  | [] => false
  | c :: r =>
    (c == ')' &&
      match Text.stripLeft r with
      | ':' :: rest => assignsOnLine rest
      | _ => false) ||
    closesParamsWithType r

/-- As in `proc foo() = discard`. -/
def closesParamsThenAssigns : Text → Bool
  | [] => false
  | c :: r => (c == ')' && assignsOnLine r) || closesParamsThenAssigns r

/-- A closing brace and behind it `=` stand before the first line feed. -/
def closesBraceThenAssigns : Text → Bool
  | [] => false
  | c :: r => c != '\n' && ((c == '}' && assignsOnLine r) || closesBraceThenAssigns r)

/-- As in `... {.inline.} =`. -/
def pragmaThenAssigns : Text → Bool
  | [] => false
  | c :: r => (c == '{' && closesBraceThenAssigns r) || pragmaThenAssigns r

def isOpener (c : Char) : Bool := c == '(' || c == '[' || c == '{'

def isCloser (c : Char) : Bool := c == ')' || c == ']' || c == '}'

def isBracket (c : Char) : Bool := isOpener c || isCloser c

/-- The text is one group without inner brackets, with nothing but blanks behind it. -/
def isLastGroup : Text → Bool
  | [] => false
  | c :: r =>
    isOpener c &&
      match r.dropWhile (!isBracket ·) with
      | d :: rest => isCloser d && Text.isBlankText rest
      | [] => false

/-- Behind the first group: blanks, maybe `:` and a result type, then the last group. -/
def continuesToLastGroup (t : Text) : Bool :=
  match t.stripLeft with
  | ':' :: rest => isLastGroup (rest.dropWhile (!isBracket ·))
  | rest => isLastGroup rest

/-- As in `proc foo*(x: cint): cint {.importc.}` and `proc foo*[T](x: T)`. -/
def endsWithAdjacentGroups : Text → Bool
  | [] => false
  | c :: r => (isCloser c && continuesToLastGroup r) || endsWithAdjacentGroups r

def endsSignature (line : Text) : Bool :=
  endsWithAssignment line || closesParamsWithType line || closesParamsThenAssigns line ||
    pragmaThenAssigns line || endsWithAdjacentGroups line

end NimMarkdown.Line
