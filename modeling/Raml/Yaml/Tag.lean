import Raml.Text.Piece
import Raml.Yaml.Token

/-!
# Tags

A tag says what kind of thing a node stands for. A plain scalar without one gets the tag that its
spelling suggests: `ofPlain` knows the spellings of nothing, truth values, integers in four bases
and in sixtieths, and doubles. Spellings of dates suggest nothing, so dates stay texts.
-/

namespace Raml.Yaml

/-- What kind of thing a node stands for. -/
inductive Tag where
  | null
  | bool
  | int
  | float
  | str
  | binary
  | timestamp
  /-- The key under which other mappings are merged in. -/
  | merge
  /-- The key of the value that stands for a whole mapping. -/
  | value
  | list
  | map
  | set
  | omap
  | pairs
  | unknown
  deriving DecidableEq, Repr

namespace Tag

/-- The tags with a name in the language's own namespace. -/
def named : List (String × Tag) :=
  [("null", .null), ("bool", .bool), ("int", .int), ("float", .float), ("str", .str),
    ("binary", .binary), ("timestamp", .timestamp), ("merge", .merge), ("value", .value),
    ("seq", .list), ("map", .map), ("set", .set), ("omap", .omap), ("pairs", .pairs)]

/-- What the language's own tags begin with. -/
def namespaceLead : String := "tag:yaml.org,2002:"

/-- The tag with a full name. -/
def ofName (name : String) : Tag :=
  match named.find? fun t => namespaceLead ++ t.1 == name with
  | some (_, tag) => tag
  | none => .unknown

/-! ## Spellings -/

/-- Whether every character is a figure or an underscore. -/
def areFigures (cs : List Char) : Bool := cs.all fun c => c.isDigit || c == '_'

/-- Whether a text begins with a figure and goes on with figures and underscores. -/
def isCount : List Char → Bool
  | c :: cs => c.isDigit && areFigures cs
  | [] => false

/-- Whether a text is a count that does not begin with nought. -/
def isPositiveCount : List Char → Bool
  | c :: cs => '1' ≤ c && c ≤ '9' && areFigures cs
  | [] => false

/-- Whether a text is a number below sixty in one or two figures. -/
def isSixtieth : List Char → Bool
  | [a] => a.isDigit
  | [a, b] => '0' ≤ a && a ≤ '5' && b.isDigit
  | _ => false

/-- Whether a text is a count followed by sixtieths after colons. -/
def isSexagesimal (isHead : List Char → Bool) (cs : List Char) : Bool :=
  match Text.split ':' cs with
  | head :: part :: parts => isHead head && (part :: parts).all isSixtieth
  | _ => false

/-- The text without a sign at its start. -/
def unsigned : List Char → List Char
  | '-' :: cs => cs
  | '+' :: cs => cs
  | cs => cs

/-- Whether a text spells an integer without a sign. -/
def isNatural : List Char → Bool
  | '0' :: 'b' :: cs => !cs.isEmpty && cs.all fun c => c == '0' || c == '1' || c == '_'
  | '0' :: 'x' :: cs => !cs.isEmpty && cs.all fun c => (hexValue? c).isSome || c == '_'
  | '0' :: cs => cs.all fun c => ('0' ≤ c && c ≤ '7') || c == '_'
  | cs => isPositiveCount cs || isSexagesimal isPositiveCount cs

/-- Whether a text is an exponent with a sign, or nothing. -/
def isExponent : List Char → Bool
  | [] => true
  | e :: s :: cs =>
    (e == 'e' || e == 'E') && (s == '-' || s == '+') && !cs.isEmpty && cs.all Char.isDigit
  | _ => false

/-- Whether a text is figures after a point, with or without an exponent. -/
def isFraction (cs : List Char) : Bool :=
  isExponent (cs.dropWhile fun c => c.isDigit || c == '_')

/-- Whether a text spells a double that may have a sign, without it. -/
def isSize (cs : List Char) : Bool :=
  match Text.cut? ['.'] cs with
  | some (whole, fraction) =>
    (isCount whole && isFraction fraction) ||
      (isSexagesimal isCount whole && areFigures fraction) ||
      (whole.isEmpty && ["inf", "Inf", "INF"].contains (String.ofList fraction))
  | none => false

/-- Whether a text spells a double. -/
def isDouble (cs : List Char) : Bool :=
  isSize (unsigned cs) ||
    match cs with
    | '.' :: d :: rest => d.isDigit && isFraction rest
    | _ => false

/-- The spellings of truth values. -/
def truthSpellings : List String :=
  ["yes", "Yes", "YES", "no", "No", "NO", "true", "True", "TRUE", "false", "False", "FALSE",
    "on", "On", "ON", "off", "Off", "OFF"]

/-- The tag that the spelling of a plain scalar suggests. -/
def ofPlain (s : String) : Tag :=
  let cs := s.toList
  if ["", "~", "null", "Null", "NULL"].contains s then .null
  else if truthSpellings.contains s then .bool
  else if isDouble cs || [".nan", ".NaN", ".NAN"].contains s then .float
  else if isNatural (unsigned cs) then .int
  else if s == "<<" then .merge
  else if s == "=" then .value
  else .str

end Tag
end Raml.Yaml
