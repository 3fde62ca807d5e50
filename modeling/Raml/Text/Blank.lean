/-!
# Blank characters

Three sets of blanks matter to the formats read here, and they differ:

* `isBlank` is the widest: the Unicode white space characters and the four information
  separators. Names, type expressions and placeholders are trimmed by it.
* `isWhiteSpace` is the Unicode property alone. Numbers in text are trimmed by it.
* `isLineBreak` holds the characters that end a line of prose.

`trim` takes blanks from both ends and nothing else: `dropStart_of_head` and
`dropEnd_of_last` say that a text with no blank at an end is left alone there.
-/

namespace Raml.Text

/-- The characters with the Unicode property White_Space. -/
def isWhiteSpace (c : Char) : Bool :=
  let n := c.toNat
  (0x09 ≤ n && n ≤ 0x0d) || n == 0x20 || n == 0x85 || n == 0xa0 || n == 0x1680 ||
    (0x2000 ≤ n && n ≤ 0x200a) || n == 0x2028 || n == 0x2029 || n == 0x202f || n == 0x205f ||
    n == 0x3000

/-- White space, and the separators of files, groups, records and units. -/
def isBlank (c : Char) : Bool :=
  isWhiteSpace c || (0x1c ≤ c.toNat && c.toNat ≤ 0x1f)

/-- The characters that end a line of prose; a carriage return and a newline end it together. -/
def isLineBreak (c : Char) : Bool :=
  let n := c.toNat
  (0x0a ≤ n && n ≤ 0x0d) || (0x1c ≤ n && n ≤ 0x1e) || n == 0x85 || n == 0x2028 || n == 0x2029

theorem isBlank_of_isWhiteSpace {c : Char} (h : isWhiteSpace c = true) : isBlank c = true := by
  simp [isBlank, h]

/-- The text without the leading characters that satisfy `p`. -/
def dropStart (p : Char → Bool) (cs : List Char) : List Char := cs.dropWhile p

/-- The text without the trailing characters that satisfy `p`. -/
def dropEnd (p : Char → Bool) (cs : List Char) : List Char := (cs.reverse.dropWhile p).reverse

/-- The text without the characters at both ends that satisfy `p`. -/
def dropAround (p : Char → Bool) (cs : List Char) : List Char := dropEnd p (dropStart p cs)

theorem dropStart_of_head {p : Char → Bool} {c : Char} {cs : List Char} (h : p c = false) :
    dropStart p (c :: cs) = c :: cs := by
  simp [dropStart, h]

theorem dropEnd_of_last {p : Char → Bool} {c : Char} {cs : List Char} (h : p c = false) :
    dropEnd p (cs ++ [c]) = cs ++ [c] := by
  simp [dropEnd, h]

/-- The text without blanks at either end. -/
def trim (s : String) : String := String.ofList (dropAround isBlank s.toList)

/-- Whether the text is empty or holds blanks alone. -/
def allBlank (s : String) : Bool := s.toList.all isBlank

end Raml.Text
