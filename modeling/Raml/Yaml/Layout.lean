import Raml.Yaml.Token

/-!
# The layout of a YAML text

Cutting a text into tokens. Indentation opens and closes blocks, and a simple key shows itself
only by the colon after it: so wherever a key may begin the place is remembered, and when the
colon comes the marks for the key are put in there. A key that begins a line of a block mapping
has to be followed by its colon on that line.
-/

namespace Raml.Yaml

/-- A place where a simple key may have begun. -/
structure Candidate where
  /-- How many tokens stand before it. -/
  tokens : Nat
  /-- Whether the block makes no sense unless it is a key. -/
  required : Bool
  index : Nat
  line : Nat
  column : Nat

/-- The state of cutting a text into tokens. -/
structure Layout where
  cursor : Cursor
  tokens : Array Token
  /-- The column of the innermost block, `-1` outside all blocks. -/
  indent : Int
  /-- The columns of the blocks around it, innermost first. -/
  outer : List Int
  /-- How many brackets are open. -/
  flow : Nat
  /-- The key that may have begun at each depth of brackets, innermost first. -/
  candidates : List (Option Candidate)
  /-- Whether a simple key may begin here. -/
  keyAllowed : Bool

namespace Layout

/-- The state before the first token. -/
def start (cs : List Char) : Layout := ⟨Cursor.start cs, #[], -1, [], 0, [none], true⟩

/-- Adds a token. -/
def push (s : Layout) (t : Token) : Layout := { s with tokens := s.tokens.push t }

/-- Moves to another place. -/
def moveTo (s : Layout) (c : Cursor) : Layout := { s with cursor := c }

/-- Says whether a simple key may begin next. -/
def allow (s : Layout) (b : Bool) : Layout := { s with keyAllowed := b }

/-- Whether brackets are open. -/
def inFlow (s : Layout) : Bool := s.flow != 0

/-- How much of the text is left. -/
def size (s : Layout) : Nat := s.cursor.size

/-! ## Indentation -/

/-- Closes the blocks that are indented more than `column`. -/
def close (column : Int) (indent : Int) (outer : List Int) (tokens : Array Token) :
    Int × List Int × Array Token :=
  match outer with
  | [] => (indent, [], tokens)
  | i :: rest =>
    if column < indent then close column i rest (tokens.push .blockEnd)
    else (indent, i :: rest, tokens)

/-- Closes the blocks that end at `column`; brackets ignore indentation. -/
def unwind (s : Layout) (column : Int) : Layout :=
  if s.inFlow then s
  else
    let (indent, outer, tokens) := close column s.indent s.outer s.tokens
    { s with indent := indent, outer := outer, tokens := tokens }

/-- Opens a block at `column` if it is indented more, with its mark before token `place`. -/
def openBlock (s : Layout) (column : Nat) (mark : Token) (place : Nat) : Layout :=
  if s.indent < (column : Int) then
    { s with
      indent := column
      outer := s.indent :: s.outer
      tokens := s.tokens.insertIdxIfInBounds place mark }
  else s

/-! ## Simple keys -/

/-- Forgets keys that are too far back; one that was required is an error. -/
def forgetStale (s : Layout) : Except Fault Layout := do
  let fresh ← s.candidates.mapM fun candidate =>
    match candidate with
    | none => pure none
    | some k =>
      if k.line != s.cursor.line || k.index + 1024 < s.cursor.index then do
        require !k.required
        pure none
      else pure (some k)
  return { s with candidates := fresh }

/-- Forgets the key at this depth of brackets; one that was required is an error. -/
def forget (s : Layout) : Except Fault Layout :=
  match s.candidates with
  | some k :: rest =>
    if k.required then .error .malformed else .ok { s with candidates := none :: rest }
  | _ => .ok s

/-- Remembers that a key may begin here. -/
def remember (s : Layout) : Except Fault Layout := do
  if s.keyAllowed then
    let s ← s.forget
    let required := !s.inFlow && s.indent == (s.cursor.column : Int)
    let k : Candidate :=
      ⟨s.tokens.size, required, s.cursor.index, s.cursor.line, s.cursor.column⟩
    return { s with candidates := some k :: s.candidates.tail }
  else return s

/-! ## Tokens -/

/-- The place of the next token: past blanks, comments and line ends. -/
def nextPlace (s : Layout) : Layout :=
  let s := if s.cursor.index = 0 && s.cursor.peek.toNat = 0xfeff then s.moveTo s.cursor.next else s
  let loop := repeatWhile (ε := Fault) size (fun s =>
    let c := s.cursor.skip (· == ' ')
    let c := if c.peek == '#' then c.skip fun ch => !isBreakOrEnd ch else c
    let (ending, after) := c.lineBreak
    if ending.isEmpty then .ok (.done (s.moveTo c))
    else .ok (.more ((s.moveTo after).allow (s.keyAllowed || !s.inFlow)))) s
  loop.toOption.getD s

/-- The end of the text, which closes all blocks. -/
def finish (s : Layout) : Except Fault Layout := (s.unwind (-1)).forget

/-- A token that stands apart from all blocks. -/
def apart (s : Layout) (t : Token) (c : Cursor) : Except Fault Layout := do
  let s ← (s.unwind (-1)).forget
  return ((s.allow false).moveTo c).push t

/-- An opening bracket, which may begin a key. -/
def bracketOpen (s : Layout) (t : Token) : Except Fault Layout := do
  let s ← s.remember
  let s := { s with flow := s.flow + 1, candidates := none :: s.candidates }
  return ((s.allow true).moveTo s.cursor.next).push t

/-- A closing bracket. -/
def bracketClose (s : Layout) (t : Token) : Except Fault Layout := do
  require s.inFlow
  let s ← s.forget
  let s := { s with flow := s.flow - 1, candidates := s.candidates.tail }
  return ((s.allow false).moveTo s.cursor.next).push t

/-- The comma after a part of a bracket. -/
def comma (s : Layout) : Except Fault Layout := do
  let s ← (s.allow true).forget
  return (s.moveTo s.cursor.next).push .comma

/-- The dash before an item, which may open a block of items. -/
def dash (s : Layout) : Except Fault Layout := do
  require (s.inFlow || s.keyAllowed)
  let s := if s.inFlow then s else s.openBlock s.cursor.column .itemsStart s.tokens.size
  let s ← (s.allow true).forget
  return (s.moveTo s.cursor.next).push .item

/-- The question mark before a key, which may open a block of entries. -/
def question (s : Layout) : Except Fault Layout := do
  require (s.inFlow || s.keyAllowed)
  let s := if s.inFlow then s else s.openBlock s.cursor.column .entriesStart s.tokens.size
  let s ← (s.allow !s.inFlow).forget
  return (s.moveTo s.cursor.next).push .key

/-- The colon before a value. What stands before it on the line may turn out to be the key. -/
def colon (s : Layout) : Except Fault Layout := do
  let s ← match s.candidates with
    | some k :: rest => do
      let s := { s with
        candidates := none :: rest
        tokens := s.tokens.insertIdxIfInBounds k.tokens .key }
      let s := if s.inFlow then s else s.openBlock k.column .entriesStart k.tokens
      pure (s.allow false)
    | _ => do
      require (s.inFlow || s.keyAllowed)
      let s := if s.inFlow then s else s.openBlock s.cursor.column .entriesStart s.tokens.size
      (s.allow !s.inFlow).forget
  return (s.moveTo s.cursor.next).push .value

/-- An alias, an anchor or a tag, which may begin a key. -/
def property {α : Type} (s : Layout) (read : Cursor → Except Fault (α × Cursor))
    (token : α → Token) : Except Fault Layout := do
  let s ← s.remember
  let (a, c) ← read s.cursor
  return ((s.allow false).moveTo c).push (token a)

/-- A scalar between quotes, which may be a key. -/
def quoted (s : Layout) (read : Cursor → Except Fault Gathered) : Except Fault Layout := do
  let s ← s.remember
  let g ← read s.cursor
  return ((s.allow false).moveTo g.cursor).push (.scalar g.result false)

/-- A plain scalar, which may be a key. -/
def plainScalar (s : Layout) : Except Fault Layout := do
  let s ← s.remember
  let p ← plain s.inFlow (s.indent + 1) s.cursor
  return ((s.allow p.onNewLine).moveTo p.gathered.cursor).push (.scalar p.gathered.result true)

/-- A block of lines. -/
def lineBlock (s : Layout) (fold : Bool) : Except Fault Layout := do
  let s ← (s.allow true).forget
  let g ← block fold s.indent s.cursor
  return (s.moveTo g.cursor).push (.scalar g.result false)

/-- The characters that begin something other than a plain scalar. -/
def indicators : List Char := "-?:,[]\x7b\x7d#&*!|>'\"%@\x60".toList

/-- Whether a plain scalar begins here. -/
def startsPlain (s : Layout) : Bool :=
  let ch := s.cursor.peek
  let spaced := isSeparation (s.cursor.peekAt 1)
  !(isSeparation ch || indicators.contains ch) ||
    (!spaced && (ch == '-' || (!s.inFlow && (ch == '?' || ch == ':'))))

/-- Whether the sign here is one: it is followed by a blank, or brackets are open. -/
def isSign (s : Layout) (ch : Char) : Bool :=
  s.cursor.peek == ch && (s.inFlow || isSeparation (s.cursor.peekAt 1))

/-- Reads the token at a place. -/
def token (s : Layout) : Except Fault Layout :=
  let c := s.cursor
  let ch := c.peek
  if c.column = 0 && ch == '%' then do
    let s ← (s.unwind (-1)).forget
    let (d, c) ← directive c
    return ((s.allow false).moveTo c).push (.directive d)
  else if c.column = 0 && c.atMarker then
    s.apart (if ch == '-' then .documentStart else .documentEnd) (c.advance 3)
  else if ch == '[' then s.bracketOpen .listOpen
  else if ch == '\x7b' then s.bracketOpen .mapOpen
  else if ch == ']' then s.bracketClose .listClose
  else if ch == '\x7d' then s.bracketClose .mapClose
  else if ch == ',' then s.comma
  else if ch == '-' && isSeparation (c.peekAt 1) then s.dash
  else if s.isSign '?' then s.question
  else if s.isSign ':' then s.colon
  else if ch == '*' then s.property anchorName .recall
  else if ch == '&' then s.property anchorName .anchor
  else if ch == '!' then s.property tagName .tag
  else if ch == '|' && !s.inFlow then s.lineBlock false
  else if ch == '>' && !s.inFlow then s.lineBlock true
  else if ch == '\'' then s.quoted singleQuoted
  else if ch == '"' then s.quoted doubleQuoted
  else if s.startsPlain then s.plainScalar
  else .error .malformed

/-- Goes to the next token and reads it. -/
def round (s : Layout) : Except Fault (Round Layout) := do
  let s ← s.nextPlace.forgetStale
  let s := s.unwind s.cursor.column
  if s.cursor.rest.isEmpty then return .done (← s.finish)
  else return .more (← s.token)

end Layout

/-- The tokens of a text. -/
def tokens (cs : List Char) : Except Fault (List Token) := do
  require (cs.all isAllowed)
  let s ← repeatWhile Layout.size Layout.round (Layout.start cs)
  return s.tokens.toList

end Raml.Yaml
