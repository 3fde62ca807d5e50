/-!
# The shortest decimal of a double

A double stands for every real that rounds to it. `ofBinary` gives the decimal with the fewest
digits among those reals, and of several with as few digits the one nearest to the double. The
search is exact: all numbers are fractions over one denominator, and for each count of digits the
two neighbours of the double on that decimal grid are tried.
-/

namespace Raml

/-- The number `digits * 10 ^ exponent`; unless it is nought, `digits` does not end in one. -/
structure Decimal where
  negative : Bool
  digits : Nat
  exponent : Int
  deriving DecidableEq, Repr

namespace Decimal

/-- The parts of a double: its sign, and `mantissa * 2 ^ exponent` for its size. -/
structure Binary where
  negative : Bool
  mantissa : Nat
  exponent : Int
  deriving DecidableEq, Repr

/-- What a double can be. -/
inductive Class where
  | notNumber
  | infinite (negative : Bool)
  | finite (parts : Binary)
  deriving DecidableEq, Repr

/-- Two to the power of `n`. -/
def twoTo (n : Nat) : Nat := Nat.pow 2 n

/-- Ten to the power of `n`. -/
def tenTo (n : Nat) : Nat := Nat.pow 10 n

/-- Reads the class of a double off its sixty-four bits. -/
def classOfBits (bits : Nat) : Class :=
  let negative := bits / twoTo 63 % 2 == 1
  let field : Nat := bits / twoTo 52 % twoTo 11
  let fraction : Nat := bits % twoTo 52
  if field = 2047 then if fraction = 0 then .infinite negative else .notNumber
  else if field = 0 then .finite ⟨negative, fraction, -1074⟩
  else .finite ⟨negative, twoTo 52 + fraction, (field : Int) - 1075⟩

/-- The class of a double. -/
def classify (x : Float) : Class := classOfBits x.toBits.toNat

/--
The reals that round to a double, as numerators over `denominator`: the double itself is `center`,
and the ends belong to the interval when `closed`.
-/
structure Interval where
  low : Nat
  center : Nat
  high : Nat
  denominator : Nat
  closed : Bool

/-- The gap below a power of two is half the gap above it, except at the smallest exponent. -/
def Binary.interval (b : Binary) : Interval :=
  let below := if b.mantissa = twoTo 52 && b.exponent ≠ -1074 then 1 else 2
  let up := (b.exponent - 2).toNat
  let down := (2 - b.exponent).toNat
  { low := (4 * b.mantissa - below) * twoTo up
    center := 4 * b.mantissa * twoTo up
    high := (4 * b.mantissa + 2) * twoTo up
    denominator := twoTo down
    closed := b.mantissa % 2 = 0 }

/-- Whether the fraction `num / den` lies in the interval. -/
def Interval.holds (i : Interval) (num den : Nat) : Bool :=
  let here := num * i.denominator
  if i.closed then i.low * den ≤ here && here ≤ i.high * den
  else i.low * den < here && here < i.high * den

/-- The count of decimal digits of `n`. -/
def width (n : Nat) : Nat := (Nat.toDigits 10 n).length

/-- Deep enough for the smallest double to have digits in front of the point when scaled by it. -/
def depth : Nat := 400

/-- The exponent of the leading decimal digit. -/
def Interval.leading (i : Interval) : Int :=
  (width (i.center * tenTo depth / i.denominator) : Int) - 1 - depth

/--
The point of the grid of step `10 ^ step` in the interval that is nearest to its center; of two
that are as near, the even one.
-/
def Interval.onGrid? (i : Interval) (step : Int) : Option Nat :=
  let up := tenTo step.toNat
  let down := tenTo (-step).toNat
  let below := i.center * down / (i.denominator * up)
  let fits (d : Nat) : Bool := i.holds (d * up) down
  let gapBelow := i.center * down - below * up * i.denominator
  let gapAbove := (below + 1) * up * i.denominator - i.center * down
  match fits below, fits (below + 1) with
  | true, true =>
    if gapBelow < gapAbove || (gapBelow = gapAbove && below % 2 = 0) then some below
    else some (below + 1)
  | true, false => some below
  | false, true => some (below + 1)
  | false, false => none

/-- Moves the noughts at the end of `digits` into the exponent; `rounds` bounds their count. -/
def stripNoughts (rounds digits : Nat) (exponent : Int) : Nat × Int :=
  match rounds with
  | 0 => (digits, exponent)
  | r + 1 =>
    if digits ≠ 0 && digits % 10 = 0 then stripNoughts r (digits / 10) (exponent + 1)
    else (digits, exponent)

/-- The shortest decimal of a finite double. -/
def ofBinary (b : Binary) : Decimal :=
  if b.mantissa = 0 then ⟨b.negative, 0, 0⟩
  else
    let i := b.interval
    let leading := i.leading
    let grids := (List.range 17).map fun (k : Nat) => leading - (k : Int)
    match grids.findSome? fun step => (i.onGrid? step).map (·, step) with
    | some (digits, step) =>
      let (digits, exponent) := stripNoughts (width digits) digits step
      ⟨b.negative, digits, exponent⟩
    | none => ⟨b.negative, b.mantissa, 0⟩

end Decimal
end Raml
