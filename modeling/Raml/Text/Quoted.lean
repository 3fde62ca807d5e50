import Raml.Text.Unicode.Printable

/-!
# Quoted text

A quoted text stands between single quotes, or between double quotes when that saves escaping a
single one. The quote and the backslash are escaped, three controls have short names, and every
other unprintable character is written by its number with as few of two, four or eight
hexadecimal digits as hold it. Bytes are quoted alike, with everything outside ASCII by number.
-/

namespace Raml.Text.Quoted

/-- One hexadecimal digit, in lower case. -/
def hexDigit (n : Nat) : Char := Nat.digitChar (n % 16)

/-- The last `width` hexadecimal digits of `n`. -/
def hex (width n : Nat) : List Char :=
  match width with
  | 0 => []
  | w + 1 => hex w (n / 16) ++ [hexDigit n]

/-- The backslash form that names a character by its number. -/
def numbered (n : Nat) : List Char :=
  if n < 0x100 then '\\' :: 'x' :: hex 2 n
  else if n < 0x10000 then '\\' :: 'u' :: hex 4 n
  else '\\' :: 'U' :: hex 8 n

/-- Double quotes when the text has a single quote and no double one, else single quotes. -/
def quoteFor (cs : List Char) : Char :=
  if cs.contains '\'' && !cs.contains '"' then '"' else '\''

/-- One character inside quotes; `plain` says which others stand as they are. -/
def escape (quote : Char) (plain : Char → Bool) (c : Char) : List Char :=
  if c = quote || c = '\\' then ['\\', c]
  else if c = '\n' then ['\\', 'n']
  else if c = '\r' then ['\\', 'r']
  else if c = '\t' then ['\\', 't']
  else if plain c then [c]
  else numbered c.toNat

/-- The characters between quotes of the chosen kind. -/
def encodeWith (plain : Char → Bool) (cs : List Char) : List Char :=
  let quote := quoteFor cs
  quote :: cs.flatMap (escape quote plain) ++ [quote]

/-- A text between quotes. -/
def text (s : String) : String :=
  String.ofList (encodeWith Unicode.isPrintable s.toList)

/-- Bytes between quotes, marked as such. -/
def bytes (bs : List UInt8) : String :=
  let cs := bs.map fun b => Char.ofNat b.toNat
  String.ofList ('b' :: encodeWith (fun c => ' ' ≤ c && c ≤ '~') cs)

end Raml.Text.Quoted
