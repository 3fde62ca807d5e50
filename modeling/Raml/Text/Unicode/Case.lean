import Raml.Text.Unicode.CaseTable

/-!
# Letter case

`toUpper` and `toLower` map whole texts: a letter may become several characters, and a capital
sigma at the end of a word becomes the final form. On ASCII they agree with the maps of the core
library.
-/

namespace Raml.Text.Unicode

/-- The code point that `shifts` moves `n` to, if one of them moves it. -/
def shifted? (shifts : List Shift) (n : Nat) : Option Nat :=
  (shifts.find? fun s => s.first ≤ n && n ≤ s.last && (n - s.first) % s.step == 0).map
    fun s => ((n : Int) + s.distance).toNat

/-- The text that a letter becomes: several characters, one, or the letter itself. -/
def mapCase (texts : List (Nat × List Nat)) (shifts : List Shift) (c : Char) : List Char :=
  match texts.find? (·.1 == c.toNat) with
  | some (_, text) => text.map Char.ofNat
  | none => match shifted? shifts c.toNat with
    | some n => [Char.ofNat n]
    | none => [c]

/-- The upper case of one character. -/
def upperChar (c : Char) : List Char :=
  if c.toNat < 128 then [c.toUpper] else mapCase upperTexts upperShifts c

/-- The lower case of one character, apart from its neighbours. -/
def lowerChar (c : Char) : List Char :=
  if c.toNat < 128 then [c.toLower] else mapCase lowerTexts lowerShifts c

/-- Whether the first character that is not ignorable has case. -/
def meetsCased (cs : List Char) : Bool :=
  match cs.dropWhile (inRanges caseIgnorableRanges) with
  | [] => false
  | c :: _ => inRanges casedRanges c

/-- A capital sigma is final when a cased letter stands before it and none after it. -/
def isFinalSigma (before after : List Char) : Bool := meetsCased before && !meetsCased after

/-- Lower case of a text; `before` holds what precedes it, last character first. -/
def lowerFrom (before : List Char) : List Char → List Char
  | [] => []
  | c :: cs =>
    (if c = 'Σ' then [if isFinalSigma before cs then 'ς' else 'σ'] else lowerChar c) ++
      lowerFrom (c :: before) cs

/-- The text in upper case. -/
def upperChars (cs : List Char) : List Char := cs.flatMap upperChar

/-- The text in lower case. -/
def lowerChars (cs : List Char) : List Char := lowerFrom [] cs

/-- The text in upper case. -/
def toUpper (s : String) : String := String.ofList (upperChars s.toList)

/-- The text in lower case. -/
def toLower (s : String) : String := String.ofList (lowerChars s.toList)

theorem lowerChar_of_ascii {c : Char} (h : c.toNat < 128) : lowerChar c = [c.toLower] := by
  simp [lowerChar, h]

end Raml.Text.Unicode
