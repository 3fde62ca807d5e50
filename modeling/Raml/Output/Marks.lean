import Raml.Text.Blank

/-!
# Marks

A text for a terminal may have marks in it: a name in brackets turns a style on, and a name after a
slash turns it off again; the slash alone turns off what was turned on last. `shown?` is what is
left for the reader. Nothing is if a style is turned off that is not on.

A bracket that no mark begins with is an ordinary character, and so is one after a backslash.
-/

namespace Raml.Marks

/-- Whether a mark may begin with a character. -/
def isLead (c : Char) : Bool := c.isLower || c == '/' || c == '#' || c == '@'

/-- The name of a style without regard to case and to blanks around it. -/
def style (cs : List Char) : String :=
  String.ofList ((Text.dropAround Text.isBlank cs).map Char.toLower)

/-- The styles that are on after a mark, the last one first; what follows an equals sign in the mark
is no part of its name. -/
def turn (on : List String) (inner : List Char) : Option (List String) :=
  match inner.takeWhile (· != '=') with
  | '/' :: name =>
    if (style name).isEmpty then on.tail?
    else if on.contains (style name) then some (on.erase (style name)) else none
  | name => some (style name :: on)

/-- The text without its marks, and without the part of a mark that was begun before it. -/
def scan (on : List String) : Option (List Char) → List Char → Option (List Char)
  | none, [] => some []
  | none, '\\' :: '[' :: cs => (scan on none cs).map ('[' :: ·)
  | none, '[' :: cs => scan on (some []) cs
  | none, c :: cs => (scan on none cs).map (c :: ·)
  | some begun, [] => some ('[' :: begun.reverse)
  | some begun, '[' :: cs => (scan on (some []) cs).map ('[' :: begun.reverse ++ ·)
  | some [], c :: cs =>
    if isLead c then scan on (some [c]) cs else (scan on none cs).map ('[' :: c :: ·)
  | some begun, ']' :: cs => do scan (← turn on begun.reverse) none cs
  | some begun, c :: cs => scan on (some (c :: begun)) cs

/-- What is shown of a text with marks in it. -/
def shown? (text : String) : Option String := (scan [] none text.toList).map String.ofList

end Raml.Marks
