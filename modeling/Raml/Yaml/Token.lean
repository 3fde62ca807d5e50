import Raml.Yaml.Scalar

/-!
# Tokens of a YAML text

The words of the language and the marks that indentation implies: where a block of entries or of
items begins and ends, and where a simple key stands. This module reads the words that hold no
layout: names of anchors, tags, and directives.
-/

namespace Raml.Yaml

/-- A tag as it is written: in full, or as a handle and what follows it. -/
inductive TagName where
  | whole (text : String)
  | short (handle suffix : String)
  deriving DecidableEq, Repr

/-- A line that tells how to read the document after it. -/
inductive Directive where
  | version (major : Nat)
  | handle (name lead : String)
  | other
  deriving DecidableEq, Repr

/-- A word of the language, or a mark implied by layout. -/
inductive Token where
  | directive (d : Directive)
  | documentStart
  | documentEnd
  | itemsStart
  | entriesStart
  | blockEnd
  | listOpen
  | listClose
  | mapOpen
  | mapClose
  | item
  | comma
  | key
  | value
  | recall (name : String)
  | anchor (name : String)
  | tag (name : TagName)
  | scalar (text : String) (plain : Bool)
  deriving DecidableEq, Repr

/-! ## Anchors -/

/-- The name after the sign of an anchor or an alias. -/
def anchorName (c : Cursor) : Except Fault (String × Cursor) := do
  let name := c.next.run isNameChar
  let c := c.next.advance name.length
  let ch := c.peek
  require (!name.isEmpty)
  require (isSeparation ch || "?:,]%@\x7d\x60".toList.contains ch)
  return (String.ofList name, c)

/-! ## Tags -/

/-- The characters of a tag besides letters and figures. -/
def uriMarks : List Char := "-;/?:@&=+$,_.!~*'()[]%".toList

/-- Whether a character may stand in a tag. -/
def isUriChar (c : Char) : Bool := c.isAlphanum || uriMarks.contains c

/-- The bytes that a run of numbered bytes names, and what follows it. -/
def numberedBytes : List Char → Except Fault (List UInt8 × List Char)
  | '%' :: a :: b :: rest =>
    match hexNumber? 2 [a, b] with
    | none => .error .malformed
    | some n => (numberedBytes rest).map fun (bs, after) => (UInt8.ofNat n :: bs, after)
  | '%' :: _ => .error .malformed
  | rest => .ok ([], rest)

/-- The characters of a tag from here on, numbered bytes read as text. -/
def uriChars (cs : List Char) : Except Fault (List Char × List Char) :=
  match cs with
  | [] => .ok ([], [])
  | c :: rest =>
    if c = '%' then
      match numberedBytes (c :: rest) with
      | .error e => .error e
      | .ok (bs, after) =>
        match Text.Utf8.decode bs with
        | .error _ => .error .malformed
        | .ok s =>
          if after.length < (c :: rest).length then
            (uriChars after).map fun (more, left) => (s.toList ++ more, left)
          else .error .malformed
    else if isUriChar c then (uriChars rest).map fun (more, left) => (c :: more, left)
    else .ok ([], c :: rest)
termination_by cs.length
decreasing_by
  all_goals
    simp only [List.length_cons] at *
    omega

/-- The text of a tag; it may not be empty. -/
def uri (c : Cursor) : Except Fault (String × Cursor) := do
  let (text, left) ← uriChars c.rest
  require (!text.isEmpty)
  return (String.ofList text, c.advance (c.rest.length - left.length))

/-- A handle: exclamation marks around a name, or a single one before a space. -/
def tagHandle (c : Cursor) : Except Fault (String × Cursor) := do
  require (c.peek == '!')
  if c.peekAt 1 == ' ' then return ("!", c.next)
  else
    let name := c.next.run isNameChar
    require (c.peekAt (name.length + 1) == '!')
    return (String.ofList ('!' :: name ++ ['!']), c.advance (name.length + 2))

/-- A tag, from its exclamation mark on. -/
def tagName (c : Cursor) : Except Fault (TagName × Cursor) := do
  let ch := c.peekAt 1
  let (name, c) ←
    if ch == '<' then do
      let (suffix, c) ← uri (c.advance 2)
      require (c.peek == '>')
      pure (TagName.whole suffix, c.next)
    else if isSeparation ch then pure (TagName.whole "!", c.next)
    else do
      let word := c.next.run fun ch => !isGap ch
      let (handle, c) ← if word.contains '!' then tagHandle c else pure ("!", c.next)
      let (suffix, c) ← uri c
      pure (TagName.short handle suffix, c)
  require (isGap c.peek)
  return (name, c)

/-! ## Directives -/

/-- A number in figures. -/
def figures (c : Cursor) : Except Fault (Nat × Cursor) := do
  let digits := c.run Char.isDigit
  require (!digits.isEmpty)
  return (digits.foldl (fun n d => n * 10 + (d.toNat - '0'.toNat)) 0, c.advance digits.length)

/-- A directive with its line. -/
def directive (c : Cursor) : Except Fault (Directive × Cursor) := do
  let name := c.next.run isNameChar
  require (!name.isEmpty)
  let c := c.next.advance name.length
  require (isGap c.peek)
  let (d, c) ←
    if name = "YAML".toList then do
      let (major, c) ← figures (c.skip (· == ' '))
      require (c.peek == '.')
      let (_, c) ← figures c.next
      require (isGap c.peek)
      pure (Directive.version major, c)
    else if name = "TAG".toList then do
      let (handle, c) ← tagHandle (c.skip (· == ' '))
      require (c.peek == ' ')
      let (lead, c) ← uri (c.skip (· == ' '))
      require (isGap c.peek)
      pure (Directive.handle handle lead, c)
    else pure (Directive.other, c.skip fun ch => !isBreakOrEnd ch)
  return (d, ← restOfLine c)

end Raml.Yaml
