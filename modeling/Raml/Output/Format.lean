import Raml.Table

/-!
# Formats of output

Results come in one of three formats; `auto` stands for the one that suits the reader. Colours are
for screens only, and not for those of users who do not want any.
-/

namespace Raml

/-- A format of results. -/
inductive Format where
  /-- What suits the reader. -/
  | auto
  | json
  | plain
  /-- For screens with colours. -/
  | rich
  deriving DecidableEq, Repr, Inhabited

namespace Format

/-- The name of a format. -/
def name : Format → String
  | .auto => "auto"
  | .json => "json"
  | .plain => "plain"
  | .rich => "rich"

/-- All formats. -/
def all : List Format := [.auto, .json, .plain, .rich]

/-- The format with a name. -/
def ofName? (name : String) : Option Format := all.find? fun f => f.name == name

/-- What a name of no format gets said. -/
def unknownMessage (name : String) : String :=
  "Unknown output format: " ++ name ++ " (expected one of: " ++
    String.intercalate ", " (all.map Format.name) ++ ")"

/-- The format itself, or the one that suits the reader. -/
def settle (colours onScreen : Bool) : Format → Format
  | .auto => if colours && onScreen then .rich else .plain
  | f => f

end Format

/-- Whether the variables of the surroundings leave colours allowed. -/
def allowsColours (environment : Table String) : Bool :=
  !environment.has "NO_COLOR" && environment.get? "TERM" != some "dumb"

end Raml
