import Raml.Text.Piece
import Raml.Text.Unicode.Word

/-!
# Numbers in text

Reading integers and doubles. A `Numeral` is a double as it is written, before rounding:
`floating?` reads one in the loose grammar of settings and tagged scalars, where blanks may
surround it, underscores may stand between digits, and digits may come from any script.
`plainFloating?` reads the bare grammar that the others reduce to.
-/

namespace Raml.Numeral

/-- A double as written. -/
inductive Floating where
  | notNumber
  | infinite (negative : Bool)
  | finite (negative : Bool) (digits : Nat) (exponent : Int)
  deriving DecidableEq, Repr

/-- No double has a leading digit above this place, nor one below its negative. -/
def widest : Int := 400

/-- The nearest double. -/
def Floating.toFloat : Floating → Float
  | .notNumber => 0.0 / 0.0
  | .infinite negative => if negative then -1.0 / 0.0 else 1.0 / 0.0
  | .finite negative digits exponent =>
    let places : Int := (Nat.toDigits 10 digits).length
    let size :=
      if digits = 0 || places + exponent < -widest then 0.0
      else if places + exponent > widest then 1.0 / 0.0
      else if exponent < 0 then Float.ofScientific digits true (-exponent).toNat
      else Float.ofScientific digits false exponent.toNat
    if negative then -size else size

/-- The digit `c` in a base up to thirty-six, in the plain letters and figures. -/
def digit? (base : Nat) (c : Char) : Option Nat :=
  let value :=
    if '0' ≤ c && c ≤ '9' then some (c.toNat - '0'.toNat)
    else if 'a' ≤ c && c ≤ 'z' then some (c.toNat - 'a'.toNat + 10)
    else if 'A' ≤ c && c ≤ 'Z' then some (c.toNat - 'A'.toNat + 10)
    else none
  value.filter (· < base)

/-- The number that a non-empty run of digits stands for. -/
def natural? (base : Nat) (cs : List Char) : Option Nat :=
  if cs.isEmpty then none
  else cs.foldlM (fun n c => (digit? base c).map (n * base + ·)) 0

/-- The text after a sign, and whether the sign is a minus. -/
def sign : List Char → Bool × List Char
  | '-' :: cs => (true, cs)
  | '+' :: cs => (false, cs)
  | cs => (false, cs)

/-- Whether the character is a figure from `0` to `9`. -/
def isFigure (c : Char) : Bool := '0' ≤ c && c ≤ '9'

/-- The text without underscores, each of which has to stand between two figures or letters. -/
def withoutUnderscores? (isPart : Char → Bool) (cs : List Char) : Option (List Char) :=
  go false cs
where
  /-- `inside` says whether the character before was part of a number. -/
  go (inside : Bool) : List Char → Option (List Char)
    | [] => some []
    | c :: cs =>
      if c = '_' then
        match cs with
        | d :: _ => if inside && isPart d then go false cs else none
        | [] => none
      else (go (isPart c) cs).map (c :: ·)

/-- Digits of every script as figures. -/
def figures (cs : List Char) : List Char :=
  cs.map fun c => match Text.Unicode.digitValue? c with
    | some d => Nat.digitChar d
    | none => c

/-- The exponent that a text ends with; a text without one has exponent nought. -/
def exponent? : List Char → Option Int
  | [] => some 0
  | c :: cs =>
    if c = 'e' || c = 'E' then
      let (negative, digits) := sign cs
      (natural? 10 digits).map fun n => if negative then -(n : Int) else n
    else none

/-- The size of a double: figures with at most one point among them, then an exponent. -/
def size? (negative : Bool) (cs : List Char) : Option Floating :=
  let whole := cs.takeWhile isFigure
  let rest := cs.dropWhile isFigure
  let (fraction, tail) := match rest with
    | '.' :: r => (r.takeWhile isFigure, r.dropWhile isFigure)
    | r => ([], r)
  match natural? 10 (whole ++ fraction), exponent? tail with
  | some digits, some e => some (.finite negative digits (e - fraction.length))
  | _, _ => none

/-- A signed double in figures, or one of the names for infinity and for no number. -/
def plainFloating? (cs : List Char) : Option Floating :=
  let (negative, size) := sign cs
  let name := String.ofList (size.map Char.toLower)
  if name = "inf" || name = "infinity" then some (.infinite negative)
  else if name = "nan" then some .notNumber
  else size? negative size

/-- A double in the loose grammar. -/
def floating? (s : String) : Option Floating :=
  (withoutUnderscores? isFigure (figures (Text.dropAround Text.isBlank s.toList))).bind
    plainFloating?

/-- The letter that may follow a nought to name a base. -/
def baseLetter? (base : Nat) : Option Char :=
  match base with
  | 2 => some 'b'
  | 8 => some 'o'
  | 16 => some 'x'
  | _ => none

/-- The text without the nought and letter that name `base`, and one underscore after them. -/
def dropBase (base : Nat) : List Char → List Char
  | '0' :: c :: cs =>
    if baseLetter? base = some c.toLower then
      match cs with
      | '_' :: ds => ds
      | ds => ds
    else '0' :: c :: cs
  | cs => cs

/-- The most decimal digits that are read as an integer. -/
def longest : Nat := 4300

/-- An integer in the loose grammar, in the given base. -/
def integer? (base : Nat) (s : String) : Option Int :=
  let (negative, size) := sign (figures (Text.dropAround Text.isBlank s.toList))
  match withoutUnderscores? Char.isAlphanum (dropBase base size) with
  | none => none
  | some digits =>
    if base = 10 && digits.length > longest then none
    else (natural? base digits).map fun n => if negative then -(n : Int) else n

end Raml.Numeral
