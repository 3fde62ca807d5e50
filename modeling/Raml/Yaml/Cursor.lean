import Raml.Repeat
import Raml.Text.Utf8

/-!
# Reading a YAML text

A `Cursor` is a place in a text: what is left of it, and how far from its start, from the first
line and from the start of the line the place is. The end of the text reads as the character of
code nought, which no YAML text may hold.

Lines end at a newline, a carriage return or both together, at the next-line character, and at
the line and paragraph separators. Only the last two keep their identity in scalars.
-/

namespace Raml.Yaml

/-- Why a text is no YAML document, or has a value that cannot be made. -/
inductive Fault where
  /-- The text breaks the rules of the language, or its tags do not fit. -/
  | malformed
  /-- A tag promises a number or a moment and the text is none. -/
  | number
  /-- A tag promises a number and the text is empty. -/
  | noNumber
  /-- A tag promises a truth value and the text is none. -/
  | truth
  /-- A tag promises a moment and the text does not look like one. -/
  | moment
  /-- A collection would contain itself. -/
  | endless
  deriving DecidableEq, Repr

/-! ## Characters -/

/-- Whether a YAML text may hold the character. -/
def isAllowed (c : Char) : Bool :=
  let n := c.toNat
  n == 0x09 || n == 0x0a || n == 0x0d || (0x20 ≤ n && n ≤ 0x7e) || n == 0x85 ||
    (0xa0 ≤ n && n ≤ 0xfffd) || 0x10000 ≤ n

/-- What the end of the text reads as. -/
def atEnd : Char := Char.ofNat 0

/-- Whether the character ends a line. -/
def isBreak (c : Char) : Bool :=
  let n := c.toNat
  n == 0x0a || n == 0x0d || n == 0x85 || n == 0x2028 || n == 0x2029

/-- A line end or the end of the text. -/
def isBreakOrEnd (c : Char) : Bool := c == atEnd || isBreak c

/-- A plain space, a line end or the end of the text. -/
def isGap (c : Char) : Bool := c == ' ' || isBreakOrEnd c

/-- A space, a tab, a line end or the end of the text. -/
def isSeparation (c : Char) : Bool := c == '\t' || isGap c

/-- A space or a tab. -/
def isSpace (c : Char) : Bool := c == ' ' || c == '\t'

/-- The letters, figures and marks of names of anchors, handles and directives. -/
def isNameChar (c : Char) : Bool := c.isAlphanum || c == '-' || c == '_'

/-! ## Places -/

/-- A place in a text. -/
structure Cursor where
  rest : List Char
  index : Nat
  line : Nat
  column : Nat
  deriving Inhabited

namespace Cursor

/-- The start of a text. -/
def start (cs : List Char) : Cursor := ⟨cs, 0, 0, 0⟩

/-- The character at the place. -/
def peek (c : Cursor) : Char := c.rest.headD atEnd

/-- The character `n` places further on. -/
def peekAt (c : Cursor) (n : Nat) : Char := (c.rest.drop n).headD atEnd

/-- The place after one character; a byte order mark does not move the column. -/
def next (c : Cursor) : Cursor :=
  match c.rest with
  | [] => c
  | ch :: rest =>
    if isBreak ch && !(ch == '\r' && rest.headD atEnd == '\n') then
      ⟨rest, c.index + 1, c.line + 1, 0⟩
    else if ch.toNat = 0xfeff then ⟨rest, c.index + 1, c.line, c.column⟩
    else ⟨rest, c.index + 1, c.line, c.column + 1⟩

/-- The place after `n` characters. -/
def advance (c : Cursor) : Nat → Cursor
  | 0 => c
  | n + 1 => c.next.advance n

/-- The characters from here on that satisfy `p`. -/
def run (c : Cursor) (p : Char → Bool) : List Char := c.rest.takeWhile p

/-- The place after the characters that satisfy `p`. -/
def skip (c : Cursor) (p : Char → Bool) : Cursor := c.advance (c.run p).length

/-- The line end here as scalars keep it, and the place after it; nothing if there is none. -/
def lineBreak (c : Cursor) : List Char × Cursor :=
  let ch := c.peek
  if ch == '\r' && c.peekAt 1 == '\n' then (['\n'], c.advance 2)
  else if ch == '\r' || ch == '\n' || ch.toNat = 0x85 then (['\n'], c.next)
  else if isBreak ch then ([ch], c.next)
  else ([], c)

/-- Whether the three characters here are a marker between documents. -/
def atMarker (c : Cursor) : Bool :=
  (c.rest.take 3 == ['-', '-', '-'] || c.rest.take 3 == ['.', '.', '.']) &&
    isSeparation (c.peekAt 3)

/-- How much of the text is left. -/
def size (c : Cursor) : Nat := c.rest.length

end Cursor

/-- A step that succeeds only if a condition holds. -/
def require (b : Bool) : Except Fault Unit := if b then .ok () else .error .malformed

/-- The rest of a line that may hold only a comment, and its end. -/
def restOfLine (c : Cursor) : Except Fault Cursor := do
  let c := c.skip (· == ' ')
  let c := if c.peek == '#' then c.skip (fun ch => !isBreakOrEnd ch) else c
  require (isBreakOrEnd c.peek)
  return c.lineBreak.2

end Raml.Yaml
