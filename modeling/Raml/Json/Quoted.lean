import Raml.Text.Quoted

/-!
# Texts in JSON

A text stands between double quotes. The quote, the backslash and all controls are escaped, and
where only plain characters are wanted so is everything outside of ASCII. An escaped character
without a short name is written by its number in units of sixteen bits: characters past the
first 65536 take two of them. `ofUnits` puts such pairs together again.
-/

namespace Raml.Json

/-- Which characters stand in quotes as they are, unless they have a short name. -/
structure Alphabet where
  has : Char → Bool

/-- Everything but controls. -/
def Alphabet.unicode : Alphabet := ⟨fun c => ' ' ≤ c⟩

/-- The characters that every encoding has. -/
def Alphabet.ascii : Alphabet := ⟨fun c => ' ' ≤ c && c ≤ '~'⟩

/-! ## Units of sixteen bits -/

/-- The number of a character in units of sixteen bits. -/
def unitsOf (c : Char) : List Nat :=
  let n := c.toNat
  if n < 0x10000 then [n]
  else [0xd800 + (n - 0x10000) / 0x400, 0xdc00 + (n - 0x10000) % 0x400]

/-- Whether a unit is the first of a pair. -/
def isLead (n : Nat) : Bool := 0xd800 ≤ n && n ≤ 0xdbff

/-- Whether a unit is the second of a pair. -/
def isTrail (n : Nat) : Bool := 0xdc00 ≤ n && n ≤ 0xdfff

/-- The character with a number; half of a pair alone is none and becomes the usual substitute. -/
def charOf (n : Nat) : Char := if isLead n || isTrail n then '\ufffd' else Char.ofNat n

/-- The characters that units stand for. -/
def ofUnits : List Nat → List Char
  | [] => []
  | [n] => [charOf n]
  | a :: b :: rest =>
    if isLead a && isTrail b then
      Char.ofNat (0x10000 + (a - 0xd800) * 0x400 + (b - 0xdc00)) :: ofUnits rest
    else charOf a :: ofUnits (b :: rest)

/-! ## Writing -/

/-- The characters that have a short name, with it. -/
def shortNames : List (Char × Char) :=
  [('"', '"'), ('\\', '\\'), ('\n', 'n'), ('\r', 'r'), ('\t', 't'), ('\x0c', 'f'), ('\x08', 'b')]

/-- One character inside quotes. -/
def escape (a : Alphabet) (c : Char) : List Char :=
  match shortNames.lookup c with
  | some name => ['\\', name]
  | none =>
    if a.has c then [c]
    else (unitsOf c).flatMap fun n => '\\' :: 'u' :: Text.Quoted.hex 4 n

/-- A text between quotes. -/
def quote (a : Alphabet) (s : String) : String :=
  String.ofList ('"' :: s.toList.flatMap (escape a) ++ ['"'])

end Raml.Json
