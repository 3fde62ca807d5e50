import Raml.Text.Utf8
import Raml.Value.Display

/-!
# Values for other programs

The `portable` form of a value holds nothing but what every reader of structured text knows:
mappings with texts as keys, lists, texts, finite numbers, truth values and null. Moments become
text, and so do bytes where they are the bytes of a text; where they are not, they stay and
`hasBytes` finds them.
-/

namespace Raml.Value

/-- The text that a mapping key becomes, if it has one. -/
def portableKey : Value → Value
  | .bool b => .str (if b then "true" else "false")
  | .float x => .str (if x.isFinite then Decimal.ofFloat .plain x else literal .null)
  | .bytes bs =>
    match Text.Utf8.decode bs with
    | .ok s => .str s
    | .error _ => .bytes bs
  | .moment m => .str m.isoZulu
  | .str s => .str s
  | v => .str v.literal

mutual

/-- A value in the form for other programs. -/
def portable : Value → Value
  | .float x => if x.isFinite then .float x else .null
  | .bytes bs =>
    match Text.Utf8.decode bs with
    | .ok s => .str s
    | .error _ => .bytes bs
  | .moment m => .str m.isoZulu
  | .list items => .list (portableItems items)
  | .pair a b => .list [a.portable, b.portable]
  | .set items => .list (portableItems items)
  | .map entries => .map (mapOf (portableEntries entries))
  | v => v

/-- Items in the form for other programs. -/
def portableItems : List Value → List Value
  | [] => []
  | v :: rest => v.portable :: portableItems rest

/-- Entries in the form for other programs. -/
def portableEntries : List (Value × Value) → List (Value × Value)
  | [] => []
  | (k, v) :: rest => (k.portableKey, v.portable) :: portableEntries rest

end

mutual

/-- Whether there are bytes anywhere in a value. -/
def hasBytes : Value → Bool
  | .bytes _ => true
  | .list items => anyHasBytes items
  | .pair a b => a.hasBytes || b.hasBytes
  | .set items => anyHasBytes items
  | .map entries => entriesHaveBytes entries
  | _ => false

/-- Whether there are bytes in one of the items. -/
def anyHasBytes : List Value → Bool
  | [] => false
  | v :: rest => v.hasBytes || anyHasBytes rest

/-- Whether there are bytes in one of the entries. -/
def entriesHaveBytes : List (Value × Value) → Bool
  | [] => false
  | (k, v) :: rest => k.hasBytes || v.hasBytes || entriesHaveBytes rest

end

end Raml.Value
