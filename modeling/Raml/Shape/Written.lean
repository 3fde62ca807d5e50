import Raml.Shape.Expression

/-!
# Shapes in documents

`render` gives the text of a shape, `toValue` the node that would be written for it, and `ofValue`
reads a node. A node in a place that takes a type is a text or a mapping; nothing at all stands
for the declaration that says nothing.

A node is read once, from the leaves up, into a `Reading`: what it is in a place that takes a
shape, and what it is in a place that takes properties. Which of the two counts is decided by the
name that its owner has for it.
-/

namespace Raml.Shape

/-! ## Writing -/

/-- The text of a shape; a declaration goes by the type that it is based on. -/
def render : Shape → String
  | .scalar text => text
  | .reference name => name
  | .array element =>
    if element.isUnion then "(" ++ element.render ++ ")[]" else element.render ++ "[]"
  | .inline (some type) _ _ _ => type.render
  | .inline none properties _ _ => if properties.isEmpty then "string" else "object"

/-- Whether a shape is a declaration. -/
def isInline : Shape → Bool
  | .inline .. => true
  | _ => false

mutual

/-- The node that is written for a shape. -/
def toValue : Shape → Value
  | .scalar text => .str text
  | .reference name => .str name
  | .array element =>
    if element.isInline then
      .map [(.str "type", .str "array"), (.str "items", element.toValue)]
    else .str (render (.array element))
  | .inline type properties items facets =>
    let start := optionEntry "type" type ++
      (if properties.isEmpty then [] else [(.str "properties", .map (entriesOf properties))]) ++
      optionEntry "items" items
    .map (facets.foldl (fun entries f => Value.insert (.str f.1) f.2 entries) start)

/-- The entry for a shape that may be missing. -/
def optionEntry (name : String) : Option Shape → List (Value × Value)
  | none => []
  | some shape => [(.str name, shape.toValue)]

/-- The entries for properties. -/
def entriesOf : List (String × Shape) → List (Value × Value)
  | [] => []
  | (name, shape) :: rest => (.str name, shape.toValue) :: entriesOf rest

end

/-! ## Reading -/

/-- Why a node is no shape. -/
inductive Fault where
  /-- A list of types. -/
  | several
  /-- Properties that are no mapping. -/
  | properties
  /-- A node of a kind that stands for no type. -/
  | kind (name : String)
  /-- A key that is an integer with too many figures for a text. -/
  | longNumber
  deriving DecidableEq, Repr

/-- The fault in words. -/
def Fault.message : Fault → String
  | .several => "multiple inheritance (a list of types) is not supported"
  | .properties => "'properties' must be a mapping"
  | .kind name => "expected a type name or a type declaration, got " ++ name
  | .longNumber => Value.longMessage

/-- What a node is as a shape, and as properties if it is a mapping or nothing. -/
structure Reading where
  shape : Except Fault Shape
  properties : Option (List (String × Except Fault Shape))
  deriving Inhabited

/-- A node in a place that may be left empty: nothing and blank text leave it so. -/
def optionalOf (v : Value) (r : Reading) : Except Fault (Option Shape) :=
  match v with
  | .null => .ok none
  | .str s => if Text.allBlank s then .ok none else r.shape.map some
  | _ => r.shape.map some

/-- The entry of a name, as a shape that may be missing. -/
def optionalEntry (name : String) (t : Table (Value × Reading)) : Except Fault (Option Shape) :=
  match t.get? name with
  | none => .ok none
  | some (v, r) => optionalOf v r

/-- The properties of a declaration, unless what stands there is no mapping. -/
def propertyEntries (t : Table (Value × Reading)) :
    Except Fault (List (String × Except Fault Shape)) :=
  match t.get? "properties" with
  | none => .ok []
  | some (v, r) =>
    match r.properties with
    | some entries => .ok entries
    | none => if v.isTruthy then .error .properties else .ok []

/-- The declaration that a mapping is, given its entries under names. -/
def inlineOf (entries : List (String × Value × Reading)) : Except Fault Shape := do
  let t := Table.ofEntries entries
  let properties ← propertyEntries t
  let type ← optionalEntry "type" t
  let properties ← Table.mapValuesM id properties
  let items ← optionalEntry "items" t
  let facets := ((t.erase "type").erase "items").erase "properties"
  return .inline type (Table.ofEntries properties) items (facets.mapValues Prod.fst)

/-- An entry of a mapping in a place that takes properties: its key has to have a text. -/
def propertyOf (e : Value × Value) (r : String × Value × Reading) : String × Except Fault Shape :=
  (r.1, if e.1.isShown then r.2.2.shape else .error .longNumber)

mutual

/-- Reads a node. -/
def reading : Value → Reading
  | .null => ⟨.ok .empty, none⟩
  | .str s => ⟨.ok (if Text.allBlank s then .empty else .ofText s), none⟩
  | .list _ => ⟨.error .several, none⟩
  | .map entries =>
    let rs := readings entries
    ⟨if entries.all fun e => e.1.isShown then inlineOf rs else .error .longNumber,
      some (List.zipWith propertyOf entries rs)⟩
  | v => ⟨.error (.kind v.kind), none⟩

/-- Reads the entries of a mapping under the texts of their keys. -/
def readings : List (Value × Value) → List (String × Value × Reading)
  | [] => []
  | (k, v) :: rest => (k.display, v, reading v) :: readings rest

end

/-- The shape that a node stands for. -/
def ofValue (v : Value) : Except Fault Shape := (reading v).shape

/-- The shape that a node stands for in a place that may be left empty. -/
def ofValue? (v : Value) : Except Fault (Option Shape) := optionalOf v (reading v)

end Raml.Shape
