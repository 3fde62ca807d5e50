import Raml.Store.Basic

/-!
# Inclusions

Before a document is decoded, each line with the directive `!include` gives way to the content
that it refers to. What stands before the directive stays, the content follows on lines of its
own, moved to the column of the directive, and what follows the `#` of the reference comes last,
as a comment.

Content that opens a type is taken as it is, under the mark of a block of text, for it may be a
schema in another language. All other content is expanded in turn, from the folder it lies in. A
location that is being expanded must not come again below itself.
-/

namespace Raml
namespace Inclusion

/-- What asks for content. -/
def directive : String := "!include"

/-- A reference, and what follows its `#`. -/
def splitReference (text : String) : String × String :=
  let cs := text.toList
  let before := cs.takeWhile (· != '#')
  (Text.trim (String.ofList before), String.ofList ((cs.drop before.length).drop 1))

/-- Whether a line opens the type of something. -/
def opensType (line : String) : Bool :=
  let s := Text.trim line
  Text.startsWith "type:" s || Text.startsWith "type " s

/-- A line with a directive, taken apart. -/
structure Line where
  before : String
  reference : String
  fragment : String
  isOpaque : Bool
  deriving DecidableEq, Repr, Inhabited

namespace Line

/-- Takes a line apart at the first directive on it. -/
def ofString? (line : String) : Option Line :=
  (Text.cut? directive.toList line.toList).map fun (before, after) =>
    let (reference, fragment) := splitReference (String.ofList after)
    ⟨String.ofList before, reference, fragment, opensType line⟩

/-- Where the directive stands. -/
def column (l : Line) : Nat := l.before.length

/-- A line moved to a column. -/
def moveTo (column : Nat) (line : String) : String :=
  String.ofList (List.replicate column ' ') ++ line

/-- The lines that stand for a line with a directive. -/
def spliced (l : Line) (content : List String) : List String :=
  let own := l.before ++ (if l.isOpaque then "|" else "")
  let comment := if l.fragment.isEmpty then [] else ["#" ++ l.fragment]
  own :: (content ++ comment).map (moveTo l.column)

end Line

/-- The text at a location, or nothing but a warning if there is no text in what stands there. -/
def content (a : Access) (reference location : String) : Load String := do
  match Text.Utf8.decode (← a.bytes reference location) with
  | .ok s => return s
  | .error _ =>
    let words := "Ignoring " ++ reference ++ ": content is not valid UTF-8"
    modify fun j => { j with warnings := j.warnings.concat words }
    return ""

/-- Expands one line, with `expand` for the content below it. -/
def expandLine (a : Access) (expand : List String → String → String → Load (List String))
    (chain : List String) (base line : String) : Load (List String) := do
  match Line.ofString? line with
  | none => return [line]
  | some l =>
    let location ← ofExcept (Location.join base l.reference)
    if chain.contains location then throw (.cyclic (chain ++ [location]))
    let text ← content a l.reference location
    if text.isEmpty || l.isOpaque then return l.spliced (Text.lines text)
    let folder ← ofExcept (Location.folder location)
    return l.spliced (← expand (chain ++ [location]) folder text)

/-- Expands lines one after another. -/
def expandLines (expandLine : String → Load (List String)) : List String → Load (List String)
  | [] => pure []
  | line :: rest => do
    let first ← expandLine line
    return first ++ (← expandLines expandLine rest)

/-- The lines of a text with all inclusions expanded, at most `depth` inside one another. -/
def expand (a : Access) : Nat → List String → String → String → Load (List String)
  | 0, _, _, _ => throw .tooDeep
  | depth + 1, chain, base, text =>
    expandLines (expandLine a (expand a depth) chain base) (Text.lines text)

end Inclusion

/--
A text with all inclusions expanded. References start from the folder `base`; `chain` holds the
locations that are being expanded, the outermost first.
-/
def Access.expand (a : Access) (chain : List String) (base text : String) : Load String := do
  let lines ← Inclusion.expand a (a.store.depth + 1) chain base text
  return String.join (lines.map (· ++ "\n"))

end Raml
