import Raml.Yaml.Meaning.Scalar

/-!
# Styles of scalars

A text can stand in a document plainly, between single quotes, or between double quotes. It is
written in the first of these styles that reads back as the same text: plainly unless something
in it would be taken for the syntax of the language or for a value that is no text, between single
quotes unless blanks would be lost there or a character cannot be written, and between double
quotes, where everything can be escaped, otherwise.
-/

namespace Raml.Yaml.Written

/-- How a text stands in a document. -/
inductive Style where
  | plain
  | single
  | double
  deriving DecidableEq, Repr

/-! ## What characters may do -/

/-- The characters that end a line. -/
def isBreak (c : Char) : Bool := c == '\n' || c == '\x85' || c == '\u2028' || c == '\u2029'

/-- The characters that part an indicator from what follows it. -/
def isGap (c : Char) : Bool :=
  isBreak c || c == ' ' || c == '\t' || c == '\r' || c == '\x00'

/-- Whether a character can be written without an escape. -/
def isWritable (c : Char) : Bool :=
  let n := c.toNat
  c == '\n' || (0x20 ≤ n && n ≤ 0x7e) || n == 0x85 ||
    (0xa0 ≤ n && n ≤ 0xfffd && n != 0xfeff) || (0x10000 ≤ n && n < 0x10ffff)

/-- The characters that no plain scalar begins with. -/
def isIndicator (c : Char) : Bool := "#,[]\x7b\x7d&*!|>'\"%@\x60".toList.contains c

/-- Whether what follows a character is a gap or nothing. -/
def gapNext : List Char → Bool
  | [] => true
  | c :: _ => isGap c

/-- Whether a text begins with something that is syntax there. -/
def opensSyntax (cs : List Char) : Bool :=
  match cs with
  | [] => false
  | c :: rest =>
    isIndicator c || ((c == '?' || c == ':' || c == '-') && gapNext rest) ||
      "---".toList.isPrefixOf cs || "...".toList.isPrefixOf cs

/-- Whether a colon before a gap or a number sign after one stands behind the first character. -/
def holdsSyntax : List Char → Bool
  | [] => false
  | [_] => false
  | before :: c :: rest =>
    (c == ':' && gapNext rest) || (c == '#' && isGap before) || holdsSyntax (c :: rest)

/-- Whether some character that satisfies `p` is followed by one that satisfies `q`. -/
def neighbours (p q : Char → Bool) : List Char → Bool
  | [] => false
  | [_] => false
  | a :: b :: rest => (p a && q b) || neighbours p q (b :: rest)

/-! ## The choice -/

/-- Whether a text begins or ends with a blank or the end of a line. -/
def hasBareEdge (cs : List Char) : Bool :=
  let isBare (c : Char) : Bool := c == ' ' || isBreak c
  cs.head?.any isBare || cs.getLast?.any isBare

/-- Whether a text spells a date, or a time of a day. -/
def isMoment (cs : List Char) : Bool :=
  (Meaning.momentOf cs).any fun m => m.clock.isSome || cs.length = 10

/-- Whether a plain scalar of this spelling is a text. -/
def readsAsText (s : String) : Bool := Tag.ofPlain s == .str && !isMoment s.toList

/-- Whether a text may stand plainly, if it reads as one. -/
def allowsPlain (cs : List Char) : Bool :=
  !opensSyntax cs && !holdsSyntax cs && !hasBareEdge cs && !cs.any isBreak && cs.all isWritable

/-- Whether a text may stand between single quotes. -/
def allowsSingle (cs : List Char) : Bool :=
  !neighbours isBreak (· == ' ') cs && !neighbours (· == ' ') isBreak cs && cs.all isWritable

/-- The style of a text. -/
def styleOf (s : String) : Style :=
  let cs := s.toList
  if allowsPlain cs && readsAsText s then .plain
  else if allowsSingle cs then .single
  else .double

end Raml.Yaml.Written
