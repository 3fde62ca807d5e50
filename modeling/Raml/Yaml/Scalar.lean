import Raml.Yaml.Cursor

/-!
# Scalars in a YAML text

The three ways to write a scalar: plain, between quotes, and as a block of lines. In the first two
a line end folds: it becomes a space, or when blank lines follow, those lines. A block keeps its
line ends, or folds those between lines of text.

Texts are gathered last character first.
-/

namespace Raml.Yaml

/-- A text gathered so far, last character first, and the place reached. -/
structure Gathered where
  text : List Char
  cursor : Cursor

namespace Gathered

/-- Adds characters to the text. -/
def add (g : Gathered) (cs : List Char) : Gathered := ⟨cs.reverse ++ g.text, g.cursor⟩

/-- Moves to another place. -/
def moveTo (g : Gathered) (c : Cursor) : Gathered := ⟨g.text, c⟩

/-- How much of the input is left. -/
def size (g : Gathered) : Nat := g.cursor.size

/-- The text in reading order. -/
def result (g : Gathered) : String := String.ofList g.text.reverse

end Gathered

/-- What a folded line end becomes: `ending` is the first one and `others` those of blank lines. -/
def folded (ending others : List Char) : List Char :=
  (if ending != ['\n'] then ending else if others.isEmpty then [' '] else []) ++ others

/-! ## Between quotes -/

/-- The character that a letter after a backslash stands for. -/
def escaped? (c : Char) : Option Char :=
  if c = '0' then some (Char.ofNat 0)
  else if c = 'a' then some (Char.ofNat 7)
  else if c = 'b' then some (Char.ofNat 8)
  else if c = 't' || c = '\t' then some '\t'
  else if c = 'n' then some '\n'
  else if c = 'v' then some (Char.ofNat 11)
  else if c = 'f' then some (Char.ofNat 12)
  else if c = 'r' then some '\r'
  else if c = 'e' then some (Char.ofNat 27)
  else if c = ' ' || c = '"' || c = '\\' || c = '/' then some c
  else if c = 'N' then some (Char.ofNat 0x85)
  else if c = '_' then some (Char.ofNat 0xa0)
  else if c = 'L' then some (Char.ofNat 0x2028)
  else if c = 'P' then some (Char.ofNat 0x2029)
  else none

/-- How many digits follow a letter after a backslash that names a character by number. -/
def escapeWidth? (c : Char) : Option Nat :=
  if c = 'x' then some 2 else if c = 'u' then some 4 else if c = 'U' then some 8 else none

/-- The value of a hexadecimal digit. -/
def hexValue? (c : Char) : Option Nat :=
  if '0' ≤ c && c ≤ '9' then some (c.toNat - '0'.toNat)
  else if 'a' ≤ c && c ≤ 'f' then some (c.toNat - 'a'.toNat + 10)
  else if 'A' ≤ c && c ≤ 'F' then some (c.toNat - 'A'.toNat + 10)
  else none

/-- The number that `width` hexadecimal digits at the start of a text stand for. -/
def hexNumber? (width : Nat) (cs : List Char) : Option Nat :=
  if cs.length < width then none
  else (cs.take width).foldlM (fun n c => (hexValue? c).map (n * 16 + ·)) 0

/-- Whether a number is the first half of a pair that names one character. -/
def isHighHalf (n : Nat) : Bool := 0xd800 ≤ n && n < 0xdc00

/-- Whether a number is the second half of a pair that names one character. -/
def isLowHalf (n : Nat) : Bool := 0xdc00 ≤ n && n < 0xe000

/-- The character with the given number, or the replacement character for half of a pair. -/
def characterOf (n : Nat) : Char :=
  if isHighHalf n || isLowHalf n then Char.ofNat 0xfffd else Char.ofNat n

/-- The line ends and blanks after a line end inside quotes; no marker may stand there. -/
def quotedBreaks (c : Cursor) : Except Fault Gathered :=
  repeatWhile Gathered.size (fun g => do
    require !g.cursor.atMarker
    let c := g.cursor.skip isSpace
    let (ending, after) := c.lineBreak
    if ending.isEmpty then return .done (g.moveTo c)
    else return .more ((g.add ending).moveTo after)) ⟨[], c⟩

/-- Blanks inside quotes, which a line end after them swallows and folds. -/
def quotedBlanks (g : Gathered) : Except Fault Gathered := do
  let blanks := g.cursor.run isSpace
  let c := g.cursor.skip isSpace
  require (c.peek != atEnd)
  let (ending, after) := c.lineBreak
  if ending.isEmpty then return (g.add blanks).moveTo c
  else
    let others ← quotedBreaks after
    return (g.add (folded ending others.text.reverse)).moveTo others.cursor

/-- An escape, from the character after the backslash on. -/
def escape (g : Gathered) : Except Fault Gathered := do
  let c := g.cursor
  match escaped? c.peek, escapeWidth? c.peek with
  | some ch, _ => return (g.add [ch]).moveTo c.next
  | none, some width =>
    match hexNumber? width c.next.rest with
    | none => .error .malformed
    | some n =>
      let after := c.next.advance width
      let low := if isHighHalf n && after.rest.take 2 == ['\\', 'u'] then
        (hexNumber? 4 (after.rest.drop 2)).filter isLowHalf else none
      match low with
      | some m =>
        return (g.add [Char.ofNat (0x10000 + (n - 0xd800) * 0x400 + (m - 0xdc00))]).moveTo
          (after.advance 6)
      | none =>
        if 0x110000 ≤ n then .error .number
        else return (g.add [characterOf n]).moveTo after
  | none, none =>
    require (isBreak c.peek)
    let others ← quotedBreaks c.lineBreak.2
    return (g.add others.text.reverse).moveTo others.cursor

/-- One round inside double quotes. -/
def doubleQuotedRound (g : Gathered) : Except Fault (Round Gathered) := do
  let ch := g.cursor.peek
  if ch == '"' then return .done (g.moveTo g.cursor.next)
  else if isSeparation ch then return .more (← quotedBlanks g)
  else if ch == '\\' then return .more (← escape (g.moveTo g.cursor.next))
  else return .more ((g.add [ch]).moveTo g.cursor.next)

/-- One round inside single quotes, where a quote is written twice. -/
def singleQuotedRound (g : Gathered) : Except Fault (Round Gathered) := do
  let ch := g.cursor.peek
  if ch == '\'' then
    if g.cursor.peekAt 1 == '\'' then return .more ((g.add ['\'']).moveTo (g.cursor.advance 2))
    else return .done (g.moveTo g.cursor.next)
  else if isSeparation ch then return .more (← quotedBlanks g)
  else return .more ((g.add [ch]).moveTo g.cursor.next)

/-- A scalar between double quotes, from the opening one on. -/
def doubleQuoted (c : Cursor) : Except Fault Gathered :=
  repeatWhile Gathered.size doubleQuotedRound ⟨[], c.next⟩

/-- A scalar between single quotes, from the opening one on. -/
def singleQuoted (c : Cursor) : Except Fault Gathered :=
  repeatWhile Gathered.size singleQuotedRound ⟨[], c.next⟩

/-! ## Plain -/

/-- A plain scalar in the making. -/
structure Plain where
  gathered : Gathered
  /-- Blanks that count only if more text follows them. -/
  pending : List Char
  /-- Whether the last thing passed was a line end. -/
  onNewLine : Bool

/-- A character that may not stand inside a plain scalar within brackets. -/
def isFlowMark (c : Char) : Bool :=
  c == ',' || c == '[' || c == ']' || c == '\x7b' || c == '\x7d'

/-- The stretch of a plain scalar from here to the next blank or mark that ends it. -/
def plainStretch (flow : Bool) : List Char → List Char
  | [] => []
  | ch :: rest =>
    let following := rest.headD atEnd
    if isSeparation ch || (flow && (isFlowMark ch || ch == '?')) ||
        (ch == ':' && (isSeparation following || (flow && isFlowMark following))) then []
    else ch :: plainStretch flow rest

/-- The line ends after the first one, and the place after them; nothing at a marker. -/
def plainBreaks (c : Cursor) : Option Gathered :=
  if c.atMarker then none
  else
    let loop := repeatWhile (ε := Unit) Gathered.size (fun g =>
      if g.cursor.peek == ' ' then .ok (.more (g.moveTo g.cursor.next))
      else
        let (ending, after) := g.cursor.lineBreak
        if ending.isEmpty then .ok (.done g)
        else if after.atMarker then .error ()
        else .ok (.more ((g.add ending).moveTo after))) ⟨[], c⟩
    loop.toOption

/-- The blanks after a stretch: what they become, whether a line ended, and the place after. -/
def plainBlanks (c : Cursor) : List Char × Bool × Cursor :=
  let blanks := c.run (· == ' ')
  let c := c.skip (· == ' ')
  let (ending, after) := c.lineBreak
  if ending.isEmpty then (blanks, false, c)
  else match plainBreaks after with
    | none => ([], true, after)
    | some others => (folded ending others.text.reverse, true, others.cursor)

/-- One stretch of a plain scalar and the blanks after it. -/
def plainRound (flow : Bool) (indent : Int) (p : Plain) : Except Fault (Round Plain) :=
  let c := p.gathered.cursor
  let stretch := if c.peek == '#' then [] else plainStretch flow c.rest
  if stretch.isEmpty then .ok (.done p)
  else
    let g := (p.gathered.add p.pending).add stretch
    let (pending, newLine, after) := plainBlanks (c.advance stretch.length)
    let p := ⟨g.moveTo after, pending, newLine⟩
    if pending.isEmpty || after.peek == '#' || (!flow && (after.column : Int) < indent) then
      .ok (.done p)
    else .ok (.more p)

/-- A plain scalar; outside brackets its lines have to be indented by `indent`. -/
def plain (flow : Bool) (indent : Int) (c : Cursor) : Except Fault Plain :=
  repeatWhile (fun p => p.gathered.size) (plainRound flow indent) ⟨⟨[], c⟩, [], false⟩

/-! ## Blocks -/

/-- What becomes of the line ends after the last line of a block. -/
inductive Chomping where
  | keep
  | clip
  | strip
  deriving DecidableEq

/-- A sign that says what becomes of the last line ends. -/
def chomping? (c : Char) : Option Chomping :=
  if c = '+' then some .keep else if c = '-' then some .strip else none

/-- A figure that says how far a block is indented. -/
def increment? (c : Char) : Option Nat :=
  if '0' ≤ c && c ≤ '9' then some (c.toNat - '0'.toNat) else none

/-- The signs in the head of a block, in either order, and the place after them. -/
def blockHead (c : Cursor) : Except Fault (Chomping × Option Nat × Cursor) := do
  let (chomping, increment, c) := match chomping? c.peek, increment? c.peek with
    | some ch, _ =>
      match increment? c.next.peek with
      | some n => (ch, some n, c.advance 2)
      | none => (ch, none, c.next)
    | none, some n =>
      match chomping? c.next.peek with
      | some ch => (ch, some n, c.advance 2)
      | none => (.clip, some n, c.next)
    | none, none => (.clip, none, c)
  require (increment != some 0)
  require (isGap c.peek)
  return (chomping, increment, c)

/-- The blank lines at the start of a block, and the deepest column their spaces reach. -/
def blockIndentation (c : Cursor) : List Char × Nat × Cursor :=
  let loop := repeatWhile (ε := Fault) (fun s : Nat × Gathered => s.2.size) (fun (deepest, g) =>
    if g.cursor.peek == ' ' then
      let c := g.cursor.next
      .ok (.more (max deepest c.column, g.moveTo c))
    else
      let (ending, after) := g.cursor.lineBreak
      if ending.isEmpty then .ok (.done (deepest, g))
      else .ok (.more (deepest, (g.add ending).moveTo after))) (0, ⟨[], c⟩)
  match loop with
  | .ok (deepest, g) => (g.text.reverse, deepest, g.cursor)
  | .error _ => ([], 0, c)

/-- The place after spaces, at most up to a column. -/
def skipTo (column : Nat) (c : Cursor) : Cursor :=
  c.advance (min (column - c.column) (c.run (· == ' ')).length)

/-- The blank lines inside a block of the given indentation, and the place after them. -/
def blockBreaks (indent : Nat) (c : Cursor) : List Char × Cursor :=
  let loop := repeatWhile (ε := Fault) Gathered.size (fun g =>
    let (ending, after) := g.cursor.lineBreak
    if ending.isEmpty then .ok (.done g)
    else .ok (.more ((g.add ending).moveTo (skipTo indent after)))) ⟨[], skipTo indent c⟩
  match loop with
  | .ok g => (g.text.reverse, g.cursor)
  | .error _ => ([], c)

/-- A block in the making: its text, the last line end, and the blank lines after it. -/
structure Block where
  gathered : Gathered
  ending : List Char
  breaks : List Char

/-- Whether a line of the block starts here. -/
def inBlock (indent : Nat) (c : Cursor) : Bool := c.column == indent && c.peek != atEnd

/-- One line of a block, with what joins it to the next. -/
def blockRound (fold : Bool) (indent : Nat) (b : Block) : Except Fault (Round Block) :=
  let c := b.gathered.cursor
  if !inBlock indent c then .ok (.done b)
  else
    let line := c.run fun ch => !isBreakOrEnd ch
    let (ending, after) := (c.advance line.length).lineBreak
    let (breaks, next) := blockBreaks indent after
    let g := (b.gathered.add b.breaks).add line
    if inBlock indent next then
      let folds := fold && ending == ['\n'] && !isSpace c.peek && !isSpace next.peek
      let joint := if folds then (if breaks.isEmpty then [' '] else []) else ending
      .ok (.more ⟨(g.add joint).moveTo next, ending, breaks⟩)
    else .ok (.done ⟨g.moveTo next, ending, breaks⟩)

/-- A block of lines, from the sign that opens it on; `parent` is the indentation around it. -/
def block (fold : Bool) (parent : Int) (c : Cursor) : Except Fault Gathered := do
  let (chomping, increment, c) ← blockHead c.next
  let c ← restOfLine c
  let least := (max (parent + 1) 1).toNat
  let (breaks, indent, c) := match increment with
    | none =>
      let (breaks, deepest, c) := blockIndentation c
      (breaks, max least deepest, c)
    | some n =>
      let indent := least + n - 1
      let (breaks, c) := blockBreaks indent c
      (breaks, indent, c)
  let b ← repeatWhile (fun b => b.gathered.size) (blockRound fold indent) ⟨⟨[], c⟩, [], breaks⟩
  let g := if chomping = .strip then b.gathered else b.gathered.add b.ending
  return if chomping = .keep then g.add b.breaks else g

end Raml.Yaml
