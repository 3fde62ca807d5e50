import Raml.Value.Display
import Raml.Yaml.Written.Scalar

/-!
# Values as documents

Mappings and lists are written in blocks, one entry or item on a line, and only what is empty in
brackets. A mapping under a key stands two columns further in, a list under a key right below it.
A key that is empty, long or of several lines follows a question mark, and its value a colon on a
line of its own; what follows such a mark, or that of an item, begins on the same line.
-/

namespace Raml.Yaml.Written

/-- How wide a line grows before it is folded. -/
def width : Nat := 80

/-- The longest key that stands in front of a colon. -/
def longestKey : Nat := 122

/-- So many blanks. -/
def blanks (n : Nat) : String := String.ofList (List.replicate n ' ')

/-- A line of its own, from a column on. -/
def lineAt (indent : Nat) : String := "\n" ++ blanks indent

/-- Whether a key stands in front of a colon on one line. -/
def isShort (key : String) : Bool :=
  !key.isEmpty && key.length ≤ longestKey && !key.toList.any isBreak

/-- A scalar that starts in a column; its further lines start at `pad`. -/
def scalar (pad column : Nat) : Value → String
  | .null => "null"
  | .bool b => if b then "true" else "false"
  | .int n => toString n
  | .float x => Decimal.ofFloat .yaml x
  | .list _ => "[]"
  | .map _ => "\x7b\x7d"
  | v => text ⟨pad, some width⟩ column v.display

/-- A key in front of a colon. -/
def shortKey (indent : Nat) (key : String) : String := text ⟨indent + 2, none⟩ indent key

/-- Parts of a block below one another, without the blanks in front of the first. -/
def block (indent : Nat) (parts : List String) : String :=
  String.intercalate (lineAt indent) parts

mutual

/-- Each entry of a mapping that stands in a column. -/
def entries (indent : Nat) : List (Value × Value) → List String
  | [] => []
  | (k, v) :: rest =>
    let key := k.display
    let shown := shortKey indent key
    let first :=
      if isShort key then shown ++ ":" ++ underKey indent (indent + shown.length + 1) v
      else
        "? " ++ scalar (indent + 2) (indent + 2) (.str key) ++
          lineAt indent ++ ": " ++ marked indent v
    first :: entries indent rest

/-- Each item of a list that stands in a column. -/
def items (indent : Nat) : List Value → List String
  | [] => []
  | v :: rest => ("- " ++ marked indent v) :: items indent rest

/-- What follows a key in column `indent` with its colon; both reach to `column`. -/
def underKey (indent column : Nat) : Value → String
  | .map es =>
    if es.isEmpty then " " ++ scalar (indent + 2) (column + 1) (.map [])
    else lineAt (indent + 2) ++ block (indent + 2) (entries (indent + 2) es)
  | .list vs =>
    if vs.isEmpty then " " ++ scalar (indent + 2) (column + 1) (.list [])
    else lineAt indent ++ block indent (items indent vs)
  | v => " " ++ scalar (indent + 2) (column + 1) v

/-- What follows a mark in column `indent`, on the same line. -/
def marked (indent : Nat) : Value → String
  | .map es =>
    if es.isEmpty then scalar (indent + 2) (indent + 2) (.map [])
    else block (indent + 2) (entries (indent + 2) es)
  | .list vs =>
    if vs.isEmpty then scalar (indent + 2) (indent + 2) (.list [])
    else block (indent + 2) (items (indent + 2) vs)
  | v => scalar (indent + 2) (indent + 2) v

end

end Written

/-- A value as a document. -/
def write : Value → String
  | .map (e :: es) => Written.block 0 (Written.entries 0 (e :: es)) ++ "\n"
  | .list (v :: vs) => Written.block 0 (Written.items 0 (v :: vs)) ++ "\n"
  | v => Written.scalar 2 0 v ++ "\n"

end Raml.Yaml
