import Raml.Decimal.Shortest

/-!
# Decimals as text

Numbers are written with the fewest digits that read back. A number whose leading digit stands
between the fourth place after the point and the sixteenth before it is written positionally and
always with a point; any other has an exponent with a sign and at least two digits. Layouts
differ in the texts for infinity and for what is no number, and in whether the digits before an
exponent need a point too.
-/

namespace Raml.Decimal

/-- How a format writes doubles. -/
structure Layout where
  notNumber : String
  infinite : String
  pointBeforeExponent : Bool

/-- Doubles in messages and plain text. -/
def Layout.plain : Layout := ⟨"nan", "inf", false⟩

/-- Doubles in JSON, with the usual names for what JSON has no numerals for. -/
def Layout.json : Layout := ⟨"NaN", "Infinity", false⟩

/-- Doubles in YAML, where digits without a point are no double. -/
def Layout.yaml : Layout := ⟨".nan", ".inf", true⟩

/-- The decimal digits of a number. -/
def digitsOf (n : Nat) : List Char := Nat.toDigits 10 n

/-- Digits with the point after the first `whole` of them, filled up with noughts. -/
def positional (digits : List Char) (whole : Int) : List Char :=
  if whole ≤ 0 then
    '0' :: '.' :: List.replicate (-whole).toNat '0' ++ digits
  else
    let n := whole.toNat
    if digits.length ≤ n then digits ++ List.replicate (n - digits.length) '0' ++ ['.', '0']
    else digits.take n ++ '.' :: digits.drop n

/-- A sign and at least two digits. -/
def exponentText (e : Int) : List Char :=
  let size := digitsOf e.natAbs
  (if e < 0 then '-' else '+') :: (if size.length < 2 then '0' :: size else size)

/-- Digits with the point after the first of them, and the exponent `e` of that one. -/
def scientific (layout : Layout) (digits : List Char) (e : Int) : List Char :=
  let mantissa := match digits with
    | d :: [] => if layout.pointBeforeExponent then [d, '.', '0'] else [d]
    | d :: ds => d :: '.' :: ds
    | [] => []
  mantissa ++ 'e' :: exponentText e

/-- The text of a decimal. -/
def write (layout : Layout) (d : Decimal) : List Char :=
  let digits := digitsOf d.digits
  let leading := d.exponent + digits.length - 1
  let size :=
    if -4 ≤ leading && leading < 16 then positional digits (leading + 1)
    else scientific layout digits leading
  if d.negative then '-' :: size else size

/-- The text of a double. -/
def ofFloat (layout : Layout) (x : Float) : String :=
  match classify x with
  | .notNumber => layout.notNumber
  | .infinite true => "-" ++ layout.infinite
  | .infinite false => layout.infinite
  | .finite b => String.ofList (write layout (ofBinary b))

end Raml.Decimal
