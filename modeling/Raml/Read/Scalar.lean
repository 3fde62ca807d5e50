import Raml.Read.Checked
import Raml.Template.Placeholder
import Raml.Text.Utf8

/-!
# Reading single values

Texts, integers, doubles and truth values from nodes. A node of another kind is taken when it
says the same thing: a whole double for an integer, figures in a text for a number, `yes` for a
truth value. Where a template may stand, a text with a placeholder is taken as it is.
-/

namespace Raml

/-! ## Texts -/

/-- The text of bytes. -/
def textOfBytes (bs : List UInt8) : Except Mismatch String :=
  match Text.Utf8.decode bs with
  | .ok s => .ok s
  | .error _ => .error .textOfBytes

/-- A text, or bytes that are one. -/
def readStrictText : Value → Except Mismatch String
  | .str s => .ok s
  | .bytes bs => textOfBytes bs
  | _ => .error .text

/-- A text, or a number as it is written. -/
def readText : Value → Except Mismatch String
  | .int n => if Value.isShort n then .ok (toString n) else .error .longNumber
  | .float x => .ok (Decimal.ofFloat .plain x)
  | v => readStrictText v

/-! ## Numbers -/

/-- The text without white space around it. -/
def bareNumber (s : String) : List Char := Text.dropAround Text.isWhiteSpace s.toList

/-- The digits of a number without single underscores between them. -/
def joinedDigits (cs : List Char) : Option (List Char) :=
  Numeral.withoutUnderscores? Numeral.isFigure cs

/-- The digits of a number without the noughts at its start, however underscores part those. -/
def withoutNoughts (cs : List Char) : List Char :=
  let isNothing (c : Char) : Bool := c == '0' || c == '_'
  if cs.head? == some '0' then
    if cs.all isNothing then cs.getLast?.toList else cs.dropWhile isNothing
  else cs

/-- An integer in figures, with or without a fraction of noughts. -/
def integerOfText? (s : String) : Option Int := do
  let (negative, size) := Numeral.sign (bareNumber s)
  let whole ← match Text.cut? ['.'] size with
    | none => some size
    | some (whole, fraction) => if fraction.all (· == '0') then some whole else none
  let digits ← joinedDigits (if negative then whole else withoutNoughts whole)
  if digits.all Numeral.isFigure then
    let n ← Numeral.natural? 10 digits
    return if negative then -(n : Int) else n
  else none

/-- The integer that a double is. -/
def integerOfDouble (x : Float) : Except Mismatch Int :=
  match Decimal.classify x with
  | .finite b =>
    let size : Nat :=
      if 0 ≤ b.exponent then b.mantissa * Decimal.twoTo b.exponent.toNat
      else b.mantissa / Decimal.twoTo (-b.exponent).toNat
    if Value.floatIsInt x (if b.negative then -size else size) then
      .ok (if b.negative then -size else size)
    else .error .integerFraction
  | _ => .error .integerFinite

/-- An integer, or something that says one. -/
def readInteger : Value → Except Mismatch Int
  | .int n => .ok n
  | .bool b => .ok (Value.truth b)
  | .float x => integerOfDouble x
  | .str s => ofText s
  | .bytes bs => match textOfBytes bs with
    | .ok s => ofText s
    | .error _ => .error .integerText
  | _ => .error .integer
where
  /-- An integer in figures. -/
  ofText (s : String) : Except Mismatch Int :=
    match integerOfText? s with
    | some n => .ok n
    | none => .error .integerText

/-- A double in figures or by name; underscores may stand inside it. -/
def doubleOfText? (s : String) : Option Float :=
  let parse (cs : List Char) : Option Float :=
    (Numeral.plainFloating? cs).map Numeral.Floating.toFloat
  match parse (bareNumber s) with
  | some x => some x
  | none =>
    let cs := s.toList
    if cs.head? == some '_' || cs.getLast? == some '_' || !cs.contains '_' ||
        Text.contains "__" s then none
    else parse (cs.filter (· != '_'))

/-- The double nearest to an integer. -/
def doubleOfInt (n : Int) : Float :=
  let size := (Numeral.Floating.finite false n.natAbs 0).toFloat
  if n < 0 then -size else size

/-- A double, or something that says one. -/
def readDouble : Value → Except Mismatch Float
  | .float x => .ok x
  | .int n =>
    let x := doubleOfInt n
    if x.isFinite then .ok x else .error .number
  | .bool b => .ok (doubleOfInt (Value.truth b))
  | .str s => ofText s
  | .bytes bs => match textOfBytes bs with
    | .ok s => ofText s
    | .error _ => .error .numberText
  | _ => .error .number
where
  /-- A double in figures. -/
  ofText (s : String) : Except Mismatch Float :=
    match doubleOfText? s with
    | some x => .ok x
    | none => .error .numberText

/-! ## Truth values -/

/-- The words for false. -/
def falseWords : List String := ["0", "off", "f", "false", "n", "no"]

/-- The words for true. -/
def trueWords : List String := ["1", "on", "t", "true", "y", "yes"]

/-- The truth value that a word says, without regard to case. -/
def truthOfText? (s : String) : Option Bool :=
  let word := String.ofList (s.toList.map Char.toLower)
  if falseWords.contains word then some false
  else if trueWords.contains word then some true
  else none

/-- A truth value, or something that says one. -/
def readTruth : Value → Except Mismatch Bool
  | .bool b => .ok b
  | .int n => ofInt n
  | .float x => match integerOfDouble x with
    | .ok n => ofInt n
    | .error _ => .error .truth
  | .str s => ofText s
  | .bytes bs => match textOfBytes bs with
    | .ok s => ofText s
    | .error _ => .error .truthText
  | _ => .error .truth
where
  /-- Nought or one. -/
  ofInt (n : Int) : Except Mismatch Bool :=
    if n = 0 then .ok false else if n = 1 then .ok true else .error .truthText
  /-- A word. -/
  ofText (s : String) : Except Mismatch Bool :=
    match truthOfText? s with
    | some b => .ok b
    | none => .error .truthText

/-! ## Template values -/

/--
A value of some kind, or a text that will become one when a template is applied: as long as it is
a text, there are brackets in it.
-/
inductive Templated (α : Type) where
  | exact (a : α)
  | text (s : String) (holds : Template.hasBrackets s = true)

/-- A kind of value that a template may leave open. -/
structure Kind (α : Type) where
  /-- The name of the kind in paths. -/
  name : String
  read : Value → Except Mismatch α
  write : α → Value

/-- Integers. -/
def Kind.integer : Kind Int := ⟨"int", readInteger, .int⟩

/-- Doubles. -/
def Kind.double : Kind Float := ⟨"float", readDouble, .float⟩

/-- Truth values. -/
def Kind.truth : Kind Bool := ⟨"bool", readTruth, .bool⟩

/-- A text with a placeholder. -/
def readPlaceholder (v : Value) :
    Except Mismatch { s : String // Template.hasBrackets s = true } := do
  let s ← readText v
  if h : Template.hasPlaceholder s = true then
    .ok ⟨s, Template.hasBrackets_of_hasPlaceholder h⟩
  else .error .placeholder

/-- A value of the kind, or else a text with a placeholder; the mismatches of both. -/
def Kind.readTemplated {α : Type} (k : Kind α) (v : Value) :
    Except (Mismatch × Mismatch) (Templated α) :=
  match k.read v with
  | .ok a => .ok (.exact a)
  | .error m =>
    match readPlaceholder v with
    | .ok ⟨s, h⟩ => .ok (.text s h)
    | .error n => .error (m, n)

/-- The node of a value that a template may have left open. -/
def Templated.toValue {α : Type} (k : Kind α) : Templated α → Value
  | .exact a => k.write a
  | .text s _ => .str s

end Raml
