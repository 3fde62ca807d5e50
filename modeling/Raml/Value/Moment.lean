import Raml.Decimal.Numeral

/-!
# Dates and times

A `Moment` is a calendar day, or a time of a day with or without its distance from universal time.
`Moment.iso` writes it in the extended form of the calendar standard and `Moment.ofIso?` reads
that form.
-/

namespace Raml

/-- A time of day; `offset` is the distance from universal time in seconds. -/
structure Clock where
  hour : Nat
  minute : Nat
  second : Nat
  micro : Nat
  offset : Option Int
  deriving DecidableEq, Repr, Inhabited

/-- A day, or a time on it. -/
structure Moment where
  year : Nat
  month : Nat
  day : Nat
  clock : Option Clock
  deriving DecidableEq, Repr, Inhabited

namespace Moment

/-- A number in exactly `width` figures, or more when it needs them. -/
def padded (width n : Nat) : String :=
  let digits := Nat.toDigits 10 n
  String.ofList (List.replicate (width - digits.length) '0' ++ digits)

/-- Hours and minutes, and the seconds when there are any. -/
def offsetText (seconds : Int) : String :=
  let size := seconds.natAbs
  let base := padded 2 (size / 3600) ++ ":" ++ padded 2 (size / 60 % 60)
  let rest := if size % 60 = 0 then "" else ":" ++ padded 2 (size % 60)
  (if seconds < 0 then "-" else "+") ++ base ++ rest

/-- The day in the extended form. -/
def dayText (m : Moment) : String :=
  padded 4 m.year ++ "-" ++ padded 2 m.month ++ "-" ++ padded 2 m.day

/-- The time of day in the extended form. -/
def clockText (c : Clock) : String :=
  padded 2 c.hour ++ ":" ++ padded 2 c.minute ++ ":" ++ padded 2 c.second ++
    (if c.micro = 0 then "" else "." ++ padded 6 c.micro) ++
    (match c.offset with
      | some seconds => offsetText seconds
      | none => "")

/-- The day, and after `mark` the time of day if there is one. -/
def write (mark : String) (m : Moment) : String :=
  match m.clock with
  | none => m.dayText
  | some c => m.dayText ++ mark ++ clockText c

/-- The extended form. -/
def iso (m : Moment) : String := m.write "T"

/-- The extended form, with the letter Z for a time in universal time. -/
def isoZulu (m : Moment) : String :=
  match m.clock with
  | some c =>
    if c.offset = some 0 then { m with clock := some { c with offset := none } }.iso ++ "Z"
    else m.iso
  | none => m.iso

/-- The days of a month in the Gregorian calendar. -/
def daysIn (year month : Nat) : Nat :=
  if month = 2 then
    if year % 4 = 0 && (year % 100 ≠ 0 || year % 400 = 0) then 29 else 28
  else if month = 4 || month = 6 || month = 9 || month = 11 then 30
  else 31

/-- Whether the calendar and the clock have such a moment. -/
def isValid (m : Moment) : Bool :=
  1 ≤ m.year && m.year ≤ 9999 && 1 ≤ m.month && m.month ≤ 12 &&
    1 ≤ m.day && m.day ≤ daysIn m.year m.month &&
    match m.clock with
    | none => true
    | some c => c.hour ≤ 23 && c.minute ≤ 59 && c.second ≤ 59

/-- The whole number written in figures. -/
def number? (s : String) : Option Nat := Numeral.natural? 10 s.toList

/-- A day in the extended form. -/
def dayOfIso? (s : String) : Option (Nat × Nat × Nat) :=
  match Text.pieces '-' s with
  | [y, m, d] => do return (← number? y, ← number? m, ← number? d)
  | _ => none

/-- A distance from universal time, without its sign. -/
def offsetOfIso? (s : String) : Option Nat := do
  match ← (Text.pieces ':' s).mapM number? with
  | [h, m] => some (h * 3600 + m * 60)
  | [h, m, s] => some (h * 3600 + m * 60 + s)
  | _ => none

/-- A time of day in the extended form. -/
def clockOfIso? (s : String) : Option Clock := do
  let cs := s.toList
  let isOffset (c : Char) : Bool := c == '+' || c == '-'
  let time := String.ofList (cs.takeWhile fun c => !isOffset c)
  let offset ← match cs.dropWhile (fun c => !isOffset c) with
    | [] => some none
    | c :: rest =>
      (offsetOfIso? (String.ofList rest)).map (fun n => some (if c = '-' then -(n : Int) else n))
  let (whole, micro) ← match Text.pieces '.' time with
    | [w] => some (w, 0)
    | [w, f] => (number? (String.ofList ((f.toList ++ List.replicate 6 '0').take 6))).map (w, ·)
    | _ => none
  match ← (Text.pieces ':' whole).mapM number? with
  | [h, m, s] => some ⟨h, m, s, micro, offset⟩
  | _ => none

/-- Reads the extended form. -/
def ofIso? (s : String) : Option Moment := do
  match Text.pieces 'T' s with
  | [d] =>
    let (year, month, day) ← dayOfIso? d
    some ⟨year, month, day, none⟩
  | [d, t] =>
    let (year, month, day) ← dayOfIso? d
    some ⟨year, month, day, some (← clockOfIso? t)⟩
  | _ => none

end Moment
end Raml
