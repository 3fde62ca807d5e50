import Raml.Text.Piece
import Raml.Text.Unicode.Word

/-!
# Spelling rules

A `Rule` finds a stretch of a word and spells it anew: what its first half matched is kept, what
its second half matched is dropped, and other letters are added. Most rules look at the end of
the word, which is also just before a newline at the end. Letters match in either case, with the
few letters outside ASCII whose other case is inside it.

A rule is applied at every place where it matches and that an earlier match has not taken.
-/

namespace Raml.Word

/-- One place of a pattern. -/
inductive Part where
  /-- This letter, in either case. -/
  | letter (c : Char)
  /-- One of these letters, in either case. -/
  | among (cs : List Char)
  /-- Anything but these letters, in either case. -/
  | besides (cs : List Char)
  /-- One of these very characters. -/
  | exactly (cs : List Char)

/-- The lower case letter of ASCII that a character is a form of, or the character itself. -/
def fold (c : Char) : Char :=
  if c = 'İ' || c = 'ı' then 'i'
  else if c = 'ſ' then 's'
  else if c.toNat = 0x212a then 'k'
  else c.toLower

/-- Whether a character fits a place. -/
def Part.fits : Part → Char → Bool
  | .letter p, c => fold c == p
  | .among cs, c => cs.contains (fold c)
  | .besides cs, c => !cs.contains (fold c)
  | .exactly cs, c => cs.contains c

/-- What is left of `cs` after a stretch that fits the places one by one. -/
def after? : List Part → List Char → Option (List Char)
  | [], cs => some cs
  | _ :: _, [] => none
  | p :: ps, c :: cs => if p.fits c then after? ps cs else none

/-- A rule for spelling the end of a word anew. -/
structure Rule where
  /-- Whether the match has to begin where the word does. -/
  fromStart : Bool
  kept : List (List Part)
  dropped : List (List Part)
  /-- Whether the match has to end where the word does. -/
  toEnd : Bool
  added : List Char

/-- The places of a plain stretch of letters. -/
def letters (s : String) : List Part := s.toList.map .letter

/-- The usual rule: it looks at the end, and its halves are plain stretches. -/
def rule (kept dropped : List String) (added : String) : Rule :=
  ⟨false, kept.map letters, dropped.map letters, true, added.toList⟩

/-- A usual rule that has to match the word as a whole. -/
def Rule.whole (r : Rule) : Rule := { r with fromStart := true }

/-- Whether the word ends here, or before a newline at its end. -/
def endsHere : List Char → Bool
  | [] => true
  | ['\n'] => true
  | _ => false

/-- How many characters the kept half and the whole match take here. -/
def Rule.match? (r : Rule) (cs : List Char) : Option (Nat × Nat) :=
  r.kept.findSome? fun kept => do
    let middle ← after? kept cs
    r.dropped.findSome? fun dropped => do
      let rest ← after? dropped middle
      if r.toEnd && !endsHere rest then none
      else some (cs.length - middle.length, cs.length - rest.length)

/-- What the rule makes of the rest of a word, after passing over `skip` characters. -/
def Rule.respell (r : Rule) (atStart : Bool) (skip : Nat) (cs : List Char) : List Char :=
  let found := if skip = 0 && (atStart || !r.fromStart) then r.match? cs else none
  match cs with
  | [] => if found.isSome then r.added else []
  | c :: rest =>
    match found with
    | some (kept, taken) =>
      (c :: rest).take kept ++ r.added ++
        (if taken = 0 then c :: r.respell false 0 rest else r.respell false (taken - 1) rest)
    | none => if skip = 0 then c :: r.respell false 0 rest else r.respell false (skip - 1) rest
termination_by structural cs

/-- Whether the rule matches somewhere in the rest of a word. -/
def Rule.occurs (r : Rule) (atStart : Bool) (cs : List Char) : Bool :=
  ((atStart || !r.fromStart) && (r.match? cs).isSome) ||
    match cs with
    | [] => false
    | _ :: rest => r.occurs false rest
termination_by structural cs

/-- The word after the first rule that matches it, or as it is when none does. -/
def applyFirst (rules : List Rule) (cs : List Char) : List Char :=
  match rules.find? fun r => r.occurs true cs with
  | some r => r.respell true 0 cs
  | none => cs

end Raml.Word
