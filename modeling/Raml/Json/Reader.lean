import Raml.Json.Quoted
import Raml.Value.Basic

/-!
# Reading JSON

`read` takes one value, with blanks around it and nothing else. Controls may not stand in a text
unescaped, no comma may come before a closing bracket, and a number does not begin with a nought
that more figures follow. The names of doubles that are no numbers are read like numbers. Of
several entries under one key the last one counts, at the place of the first.

Every reader returns what is left of the text. `room` bounds how often readers call one another;
`read` gives more of it than there are characters, and each call but the first uses one up.
-/

namespace Raml.Json

/-- Why a text is not read. -/
inductive Fault where
  | malformed
  /-- An integer has more figures than are read. -/
  | tooLong
  deriving DecidableEq, Repr

/-- Whether a character may stand between the parts of a value. -/
def isBlank (c : Char) : Bool := c == ' ' || c == '\t' || c == '\n' || c == '\r'

/-- The text after blanks. -/
def skip (cs : List Char) : List Char := cs.dropWhile isBlank

/-! ## Texts -/

/-- The characters with short names, by name. -/
def namedChar? (name : Char) : Option Char :=
  if name = '/' then some '/' else (shortNames.find? fun e => e.2 == name).map Prod.fst

/-- The units of a text up to its closing quote, and what follows that. -/
def textUnits : List Char → Option (List Nat × List Char)
  | [] => none
  | '"' :: rest => some ([], rest)
  | '\\' :: 'u' :: a :: b :: c :: d :: rest => do
    let n ← Numeral.natural? 16 [a, b, c, d]
    let (units, rest) ← textUnits rest
    return (n :: units, rest)
  | '\\' :: name :: rest => do
    let c ← namedChar? name
    let (units, rest) ← textUnits rest
    return (c.toNat :: units, rest)
  | c :: rest =>
    if c < ' ' || c = '\\' then none
    else (textUnits rest).map fun (units, rest) => (c.toNat :: units, rest)

/-- The text after an opening quote. -/
def readText (cs : List Char) : Except Fault (String × List Char) :=
  match textUnits cs with
  | some (units, rest) => .ok (String.ofList (ofUnits units), rest)
  | none => .error .malformed

/-! ## Numbers and names -/

/-- The fraction that a text begins with, point included; there is none without a figure. -/
def fraction : List Char → List Char × List Char
  | '.' :: cs =>
    let digits := cs.takeWhile Numeral.isFigure
    if digits.isEmpty then ([], '.' :: cs) else ('.' :: digits, cs.drop digits.length)
  | cs => ([], cs)

/-- The exponent that a text begins with, letter included; there is none without a figure. -/
def exponent : List Char → List Char × List Char
  | e :: cs =>
    if e = 'e' || e = 'E' then
      let (signs, figures) := match cs with
        | '+' :: r => (['+'], r)
        | '-' :: r => (['-'], r)
        | r => ([], r)
      let digits := figures.takeWhile Numeral.isFigure
      if digits.isEmpty then ([], e :: cs)
      else (e :: signs ++ digits, figures.drop digits.length)
    else ([], e :: cs)
  | [] => ([], [])

/-- The figures before a point: a nought alone, or any that do not begin with one. -/
def whole (cs : List Char) : List Char × List Char :=
  match cs with
  | '0' :: rest => (['0'], rest)
  | cs => (cs.takeWhile Numeral.isFigure, cs.dropWhile Numeral.isFigure)

/-- The number that a text begins with. -/
def readNumber (cs : List Char) : Except Fault (Value × List Char) :=
  let (negative, size) := match cs with
    | '-' :: rest => (true, rest)
    | rest => (false, rest)
  let (digits, rest) := whole size
  let (places, rest) := fraction rest
  let (power, rest) := exponent rest
  match Numeral.natural? 10 digits with
  | none => .error .malformed
  | some n =>
    if places.isEmpty && power.isEmpty then
      if Numeral.longest < digits.length then .error .tooLong
      else .ok (.int (if negative then -(n : Int) else n), rest)
    else
      match Numeral.size? negative (digits ++ places ++ power) with
      | some x => .ok (.float x.toFloat, rest)
      | none => .error .malformed

/-- The values that have names. -/
def named : List (String × Value) :=
  [("null", .null), ("true", .bool true), ("false", .bool false), ("NaN", .float (0.0 / 0.0)),
    ("Infinity", .float (1.0 / 0.0)), ("-Infinity", .float (-1.0 / 0.0))]

/-- The name or number that a text begins with. -/
def readWord (cs : List Char) : Except Fault (Value × List Char) :=
  match named.find? fun e => e.1.toList.isPrefixOf cs with
  | some (name, v) => .ok (v, cs.drop name.length)
  | none => readNumber cs

/-! ## Values -/

mutual

/-- The value that a text begins with. -/
def readValue : Nat → List Char → Except Fault (Value × List Char)
  | 0, _ => .error .malformed
  | room + 1, cs =>
    match cs with
    | '"' :: rest => (readText rest).map fun (s, rest) => (.str s, rest)
    | '[' :: rest =>
      match skip rest with
      | ']' :: rest => .ok (.list [], rest)
      | rest => (readItems room rest).map fun (items, rest) => (.list items, rest)
    | '\x7b' :: rest =>
      match skip rest with
      | '\x7d' :: rest => .ok (.map [], rest)
      | rest => (readEntries room rest).map fun (es, rest) => (.map (Value.mapOf es), rest)
    | cs => readWord cs

/-- Items up to the closing bracket, at least one. -/
def readItems : Nat → List Char → Except Fault (List Value × List Char)
  | 0, _ => .error .malformed
  | room + 1, cs => do
    let (v, rest) ← readValue room cs
    match skip rest with
    | ']' :: rest => return ([v], rest)
    | ',' :: rest =>
      let (items, rest) ← readItems room (skip rest)
      return (v :: items, rest)
    | _ => throw .malformed

/-- Entries up to the closing bracket, at least one. -/
def readEntries : Nat → List Char → Except Fault (List (Value × Value) × List Char)
  | 0, _ => .error .malformed
  | room + 1, cs => do
    match cs with
    | '"' :: rest =>
      let (key, rest) ← readText rest
      match skip rest with
      | ':' :: rest =>
        let (v, rest) ← readValue room (skip rest)
        match skip rest with
        | '\x7d' :: rest => return ([(.str key, v)], rest)
        | ',' :: rest =>
          let (es, rest) ← readEntries room (skip rest)
          return ((.str key, v) :: es, rest)
        | _ => throw .malformed
      | _ => throw .malformed
    | _ => throw .malformed

end

/-- The value that a text holds. -/
def read (s : String) : Except Fault Value := do
  let cs := s.toList
  let (v, rest) ← readValue (cs.length + 1) (skip cs)
  if (skip rest).isEmpty then return v else throw .malformed

end Raml.Json
