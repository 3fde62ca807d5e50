import Raml.Value.Display

/-!
# Reading with all problems at once

What is read from a document is either good or comes with every problem found in it, each with
the path to where it is. Reading two things reads both even if one is bad, so a document with
several mistakes shows all of them, in the order in which its parts are read.
-/

namespace Raml

/-- What is wrong with a node. -/
inductive Mismatch where
  | missing
  | text
  /-- Bytes where a text is wanted that are not the bytes of one. -/
  | textOfBytes
  | mapping
  | list
  /-- Anything but a mapping where an entity of the given name is wanted. -/
  | entity (name : String)
  | integer
  | integerText
  | integerFraction
  | integerFinite
  | number
  | numberText
  | truth
  | truthText
  /-- A text that is not the kind of thing wanted and holds no placeholder either. -/
  | placeholder
  /-- An integer where a text is wanted that has too many figures for one. Nothing else is told of a
  document in which this happens. -/
  | longNumber
  /-- A node that a rule of the language forbids. -/
  | rule (words : String)
  deriving DecidableEq, Repr

/-- What is wrong in words. -/
def Mismatch.message : Mismatch → String
  | .missing => "Field required"
  | .text => "Input should be a valid string"
  | .textOfBytes =>
    "Input should be a valid string, unable to parse raw data as a unicode string"
  | .mapping => "Input should be a valid dictionary"
  | .list => "Input should be a valid list"
  | .entity name => "Input should be a valid dictionary or instance of " ++ name
  | .integer => "Input should be a valid integer"
  | .integerText => "Input should be a valid integer, unable to parse string as an integer"
  | .integerFraction => "Input should be a valid integer, got a number with a fractional part"
  | .integerFinite => "Input should be a finite number"
  | .number => "Input should be a valid number"
  | .numberText => "Input should be a valid number, unable to parse string as a number"
  | .truth => "Input should be a valid boolean"
  | .truthText => "Input should be a valid boolean, unable to interpret input"
  | .placeholder => "String should match pattern '(?s)^.*<<[^<>]+>>'"
  | .longNumber => Value.longMessage
  | .rule words => "Value error, " ++ words

/-- Something wrong, and where. -/
structure Problem where
  path : List String
  what : Mismatch
  deriving DecidableEq, Repr

/-- A line for a problem at a path; a problem of the whole document has no path. -/
def problemLine (path : List String) (message : String) : String :=
  let place := String.intercalate "." path
  (if place.isEmpty then "<document>" else place) ++ ": " ++ message

/-- The line for a problem. -/
def Problem.line (p : Problem) : String := problemLine p.path p.what.message

/-- Something read, or all that is wrong with it. -/
inductive Checked (α : Type) where
  | good (a : α)
  | bad (problems : List Problem)

namespace Checked

variable {α β : Type}

/-- A single problem at the place itself. -/
def fail (m : Mismatch) : Checked α := .bad [⟨[], m⟩]

/-- Changes what was read. -/
def map (f : α → β) : Checked α → Checked β
  | .good a => .good (f a)
  | .bad ps => .bad ps

/-- Applies a function that was read; problems of both sides are kept. -/
def apply (f : Checked (α → β)) (a : Checked α) : Checked β :=
  match f, a with
  | .good f, .good a => .good (f a)
  | .good _, .bad qs => .bad qs
  | .bad ps, .good _ => .bad ps
  | .bad ps, .bad qs => .bad (ps ++ qs)

instance : Functor Checked where
  map := map

instance : Applicative Checked where
  pure := .good
  seq f a := apply f (a ())

/-- The same one step further along a path. -/
def under (part : String) : Checked α → Checked α
  | .good a => .good a
  | .bad ps => .bad (ps.map fun p => { p with path := part :: p.path })

/-- What was read, or the problems. -/
def toExcept : Checked α → Except (List Problem) α
  | .good a => .ok a
  | .bad ps => .error ps

/-- Something that a single mismatch can prevent. -/
def ofExcept : Except Mismatch α → Checked α
  | .ok a => .good a
  | .error m => fail m

/-- Everything in a list. -/
def all : List (Checked α) → Checked (List α)
  | [] => .good []
  | a :: rest => List.cons <$> a <*> all rest

end Checked
end Raml
