import Raml.Text.Unicode.Case
import Raml.Value.Basic
import Raml.Yaml.Tag

/-!
# What scalars stand for

The value of a scalar with a given tag. A spelling that suggests a tag nearly always has a value
of that kind, but a tag may also be put in front of any text, and then the text may be none.
-/

namespace Raml.Yaml.Meaning

/-! ## Numbers -/

/-- The text without underscores. -/
def withoutUnderscores (cs : List Char) : List Char := cs.filter (· != '_')

/-- The sign of a number as a factor, and its size. -/
def signed : List Char → Int × List Char
  | '-' :: cs => (-1, cs)
  | '+' :: cs => (1, cs)
  | cs => (1, cs)

/-- An integer in the given base. -/
def integerIn (base : Nat) (cs : List Char) : Except Fault Int :=
  match Numeral.integer? base (String.ofList cs) with
  | some n => .ok n
  | none => .error .number

/-- The size of an integer: its first figures tell the base, and colons part sixtieths. -/
def integerSize (cs : List Char) : Except Fault Int :=
  match cs with
  | [] => .error .noNumber
  | ['0'] => .ok 0
  | '0' :: 'b' :: rest => integerIn 2 rest
  | '0' :: 'x' :: rest => integerIn 16 rest
  | '0' :: rest => integerIn 8 ('0' :: rest)
  | cs =>
    if cs.contains ':' then do
      let parts ← (Text.split ':' cs).mapM (integerIn 10)
      return parts.foldl (fun n d => n * 60 + d) 0
    else integerIn 10 cs

/-- An integer. -/
def integer (text : String) : Except Fault Value := do
  let cs := withoutUnderscores text.toList
  require (!cs.isEmpty) |>.mapError fun _ => .noNumber
  let (sign, size) := signed cs
  return .int (sign * (← integerSize size))

/-- A double in figures. -/
def doubleOf (cs : List Char) : Except Fault Float :=
  match Numeral.floating? (String.ofList cs) with
  | some x => .ok x.toFloat
  | none => .error .number

/-- Adds up sixtieths, the last one first, each `base` units large. -/
def sixtieths (total : Float) (base : Nat) : List Float → Float
  | [] => total
  | d :: ds => sixtieths (total + d * Float.ofNat base) (base * 60) ds

/-- A double. -/
def double (text : String) : Except Fault Value := do
  let cs := Text.Unicode.lowerChars (withoutUnderscores text.toList)
  require (!cs.isEmpty) |>.mapError fun _ => .noNumber
  let (sign, size) := signed cs
  let factor : Float := if sign < 0 then -1.0 else 1.0
  if size = ".inf".toList then return .float (factor * (1.0 / 0.0))
  else if size = ".nan".toList then return .float (0.0 / 0.0)
  else if size.contains ':' then do
    let parts ← (Text.split ':' size).mapM doubleOf
    return .float (factor * sixtieths 0.0 1 parts.reverse)
  else return .float (factor * (← doubleOf size))

/-- A truth value. -/
def truth (text : String) : Except Fault Value :=
  let word := Text.Unicode.toLower text
  if ["yes", "true", "on"].contains word then .ok (.bool true)
  else if ["no", "false", "off"].contains word then .ok (.bool false)
  else .error .truth

/-! ## Bytes -/

/-- The value of a letter of the alphabet of sixty-four. -/
def sextet? (c : Char) : Option Nat :=
  if 'A' ≤ c && c ≤ 'Z' then some (c.toNat - 'A'.toNat)
  else if 'a' ≤ c && c ≤ 'z' then some (c.toNat - 'a'.toNat + 26)
  else if '0' ≤ c && c ≤ '9' then some (c.toNat - '0'.toNat + 52)
  else if c = '+' then some 62
  else if c = '/' then some 63
  else none

/--
Bytes in the alphabet of sixty-four. `phase` counts the letters of the group so far, `left` holds
the bits of the last one that are not used up, and `pads` counts the signs that fill the group.
Other characters are passed over.
-/
def base64 (phase left pads : Nat) : List Char → Except Fault (List UInt8)
  | [] => if phase = 0 then .ok [] else .error .malformed
  | c :: cs =>
    if c = '=' then
      if 2 ≤ phase && 4 ≤ phase + (pads + 1) then .ok []
      else base64 phase left (if 2 ≤ phase then pads + 1 else pads) cs
    else match sextet? c with
      | none => base64 phase left pads cs
      | some n =>
        if phase = 0 then base64 1 n 0 cs
        else if phase = 1 then
          (base64 2 (n % 16) 0 cs).map (UInt8.ofNat (left * 4 + n / 16) :: ·)
        else if phase = 2 then
          (base64 3 (n % 4) 0 cs).map (UInt8.ofNat (left * 16 + n / 4) :: ·)
        else (base64 0 0 0 cs).map (UInt8.ofNat (left * 64 + n) :: ·)

/-- Bytes. -/
def binary (text : String) : Except Fault Value := do
  require (text.toList.all fun c => c.toNat < 128)
  return .bytes (← base64 0 0 0 text.toList)

/-! ## Moments -/

/-- A number in one figure or two, and what follows. -/
def oneOrTwo : List Char → Option (Nat × List Char)
  | a :: b :: rest =>
    if !a.isDigit then none
    else if b.isDigit then (Numeral.natural? 10 [a, b]).map (·, rest)
    else (Numeral.natural? 10 [a]).map (·, b :: rest)
  | [a] => if a.isDigit then (Numeral.natural? 10 [a]).map (·, []) else none
  | [] => none

/-- A number in exactly `n` figures, and what follows. -/
def exactly (n : Nat) (cs : List Char) : Option (Nat × List Char) :=
  let digits := cs.take n
  if digits.length = n && digits.all Char.isDigit then
    (Numeral.natural? 10 digits).map (·, cs.drop n)
  else none

/-- The text after one expected character. -/
def after (c : Char) : List Char → Option (List Char)
  | d :: rest => if d = c then some rest else none
  | [] => none

/-- The distance from universal time that a text ends with, in seconds; none if it is empty. -/
def zone (cs : List Char) : Option (Option Int) :=
  if cs.isEmpty then some none
  else match cs.dropWhile isSpace with
    | ['Z'] => some (some 0)
    | s :: rest =>
      if s = '+' || s = '-' then do
        let (hours, rest) ← oneOrTwo rest
        let minutes ← match rest with
          | [] => some 0
          | ':' :: rest => do
            let (m, rest) ← exactly 2 rest
            if rest.isEmpty then some m else none
          | _ => none
        let seconds : Int := hours * 3600 + minutes * 60
        some (some (if s = '-' then -seconds else seconds))
      else none
    | [] => none

/-- A time of day and what ends the text. -/
def clock (cs : List Char) : Option Clock := do
  let (hour, cs) ← oneOrTwo cs
  let (minute, cs) ← exactly 2 (← after ':' cs)
  let (second, cs) ← exactly 2 (← after ':' cs)
  let (fraction, cs) := match cs with
    | '.' :: rest => (rest.takeWhile Char.isDigit, rest.dropWhile Char.isDigit)
    | rest => ([], rest)
  let micro := (Numeral.natural? 10 ((fraction ++ List.replicate 6 '0').take 6)).getD 0
  return ⟨hour, minute, second, micro, ← zone cs⟩

/-- A day, or a time of a day. -/
def momentOf (cs : List Char) : Option Moment := do
  let (year, cs) ← exactly 4 cs
  let (month, cs) ← oneOrTwo (← after '-' cs)
  let (day, cs) ← oneOrTwo (← after '-' cs)
  match cs with
  | [] => return ⟨year, month, day, none⟩
  | c :: rest =>
    if c = 'T' || c = 't' then return ⟨year, month, day, some (← clock rest)⟩
    else if isSpace c then return ⟨year, month, day, some (← clock (rest.dropWhile isSpace))⟩
    else none

/-- Whether a distance from universal time is less than a day. -/
def isNear (m : Moment) : Bool :=
  match m.clock.bind Clock.offset with
  | some seconds => seconds.natAbs < 86400
  | none => true

/-- A moment. -/
def moment (text : String) : Except Fault Value :=
  match momentOf text.toList with
  | none => .error .moment
  | some m => if m.isValid && isNear m then .ok (.moment m) else .error .number

/-! ## Scalars -/

/-- What a scalar stands for, by its tag; tags of collections do not fit one. -/
def scalar (tag : Tag) (text : String) : Except Fault Value :=
  match tag with
  | .null => .ok .null
  | .bool => truth text
  | .int => integer text
  | .float => double text
  | .str => .ok (.str text)
  | .binary => binary text
  | .timestamp => moment text
  | _ => .error .malformed

end Raml.Yaml.Meaning
