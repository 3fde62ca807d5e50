import Raml.Decimal.Layout
import Raml.Text.Quoted
import Raml.Yaml.Written.Style

/-!
# Scalars in a document

The characters of a scalar, from the column where it starts. A line that has grown past its width
is folded at the next single blank, where reading puts the blank back; between double quotes a
backslash marks the fold, so that it can come after an escape too. Between single quotes a quote is
written twice and each end of a line takes an empty line more.

`pad` is the column where further lines of the scalar start. Scalars that may not be folded, such
as keys, are written with no limit to the width.
-/

namespace Raml.Yaml.Written

/-- Where a scalar stands: the column of further lines, and how wide one may grow, if at all. -/
structure Place where
  pad : Nat
  width : Option Nat

/-- Whether a line that reaches to `column` is too wide. -/
def Place.isFull (p : Place) (column : Nat) : Bool := p.width.any (· < column)

/-- The start of a further line. -/
def Place.newLine (p : Place) : List Char := '\n' :: List.replicate p.pad ' '

/-! ## Plain and single-quoted -/

/-- A stretch of a text. -/
inductive Stretch where
  | word (cs : List Char)
  | blanks (n : Nat)
  | breaks (cs : List Char)
  deriving DecidableEq, Repr

/-- Puts a character in front of stretches. -/
def Stretch.cons (c : Char) : List Stretch → List Stretch
  | .word cs :: rest =>
    if c == ' ' then .blanks 1 :: .word cs :: rest
    else if isBreak c then .breaks [c] :: .word cs :: rest
    else .word (c :: cs) :: rest
  | .blanks n :: rest =>
    if c == ' ' then .blanks (n + 1) :: rest
    else if isBreak c then .breaks [c] :: .blanks n :: rest
    else .word [c] :: .blanks n :: rest
  | .breaks cs :: rest =>
    if c == ' ' then .blanks 1 :: .breaks cs :: rest
    else if isBreak c then .breaks (c :: cs) :: rest
    else .word [c] :: .breaks cs :: rest
  | [] =>
    if c == ' ' then [.blanks 1] else if isBreak c then [.breaks [c]] else [.word [c]]

/-- The stretches of a text: words, blanks between them, and ends of lines. -/
def stretches (cs : List Char) : List Stretch := cs.foldr Stretch.cons []

/-- Ends of lines as they stand in a scalar: one more where a newline comes first. -/
def writeBreaks (cs : List Char) : List Char :=
  match cs with
  | '\n' :: _ => '\n' :: cs
  | cs => cs

/-- Stretches from a column on; `first` says whether they begin the text. -/
def writeStretches (p : Place) (first : Bool) (column : Nat) : List Stretch → List Char
  | [] => []
  | .word cs :: rest => cs ++ writeStretches p false (column + cs.length) rest
  | .blanks n :: rest =>
    if n = 1 && p.isFull column && !first && !rest.isEmpty then
      p.newLine ++ writeStretches p false p.pad rest
    else List.replicate n ' ' ++ writeStretches p false (column + n) rest
  | .breaks cs :: rest =>
    writeBreaks cs ++ List.replicate p.pad ' ' ++ writeStretches p false p.pad rest

/-- A text with every quote written twice. -/
def doubleQuotes (cs : List Char) : List Char :=
  cs.flatMap fun c => if c = '\'' then ['\'', '\''] else [c]

/-- A text between single quotes. -/
def singleQuoted (p : Place) (column : Nat) (cs : List Char) : List Char :=
  '\'' :: writeStretches p true (column + 1) (stretches (doubleQuotes cs)) ++ ['\'']

/-! ## Double-quoted -/

/-- The characters that have a short name, with it. -/
def shortNames : List (Char × Char) :=
  [('\x00', '0'), ('\x07', 'a'), ('\x08', 'b'), ('\t', 't'), ('\n', 'n'), ('\x0b', 'v'),
    ('\x0c', 'f'), ('\r', 'r'), ('\x1b', 'e'), ('"', '"'), ('\\', '\\'), ('\x85', 'N'),
    ('\u2028', 'L'), ('\u2029', 'P')]

/-- Whether a character stands between double quotes as it is. -/
def standsQuoted (c : Char) : Bool :=
  let n := c.toNat
  (shortNames.lookup c).isNone && n != 0xfeff &&
    ((0x20 ≤ n && n ≤ 0x7e) || (0xa0 ≤ n && n ≤ 0xfffd))

/-- The last `width` hexadecimal digits of a number, in capitals. -/
def capitalHex (width n : Nat) : List Char := (Text.Quoted.hex width n).map Char.toUpper

/-- The escape for a character. -/
def escape (c : Char) : List Char :=
  let n := c.toNat
  match shortNames.lookup c with
  | some name => ['\\', name]
  | none =>
    if n ≤ 0xff then '\\' :: 'x' :: capitalHex 2 n
    else if n ≤ 0xffff then '\\' :: 'u' :: capitalHex 4 n
    else '\\' :: 'U' :: capitalHex 8 n

/-- A fold before `rest`, and the column after it; a blank behind it has to be escaped. -/
def fold (p : Place) (rest : List Char) : List Char × Nat :=
  if rest.head? = some ' ' then ('\\' :: p.newLine ++ ['\\'], p.pad + 1)
  else ('\\' :: p.newLine, p.pad)

/--
A text from a column on. `first` says whether it begins the scalar, and `fresh` whether an escape
came right before. There is no fold before the first character nor before the last one.
-/
def writeEscaped (p : Place) (first fresh : Bool) (column : Nat) : List Char → List Char
  | [] => []
  | c :: rest =>
    let inside := !first && !rest.isEmpty
    if standsQuoted c then
      if inside && (c == ' ' || fresh) && p.isFull column then
        let (mark, column) := fold p (c :: rest)
        mark ++ c :: writeEscaped p false false (column + 1) rest
      else c :: writeEscaped p false false (column + 1) rest
    else
      let shown := escape c
      let column := column + shown.length
      if inside && p.isFull (column - 1) then
        let (mark, column) := fold p rest
        shown ++ mark ++ writeEscaped p false true column rest
      else shown ++ writeEscaped p false true column rest

/-- A text between double quotes. -/
def doubleQuoted (p : Place) (column : Nat) (cs : List Char) : List Char :=
  '"' :: writeEscaped p true false (column + 1) cs ++ ['"']

/-! ## Scalars -/

/-- A text that starts in a column, in its style. -/
def text (p : Place) (column : Nat) (s : String) : String :=
  let cs := s.toList
  String.ofList <| match styleOf s with
    | .plain => writeStretches p true column (stretches cs)
    | .single => singleQuoted p column cs
    | .double => doubleQuoted p column cs

end Raml.Yaml.Written
