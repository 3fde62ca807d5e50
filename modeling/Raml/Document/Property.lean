import Raml.Document.Declarations

/-!
# Properties

A `Property` is a property of a body or of a declared type, seen with the facets that say what
values it takes. It is optional when its key ends in a question mark, unless the facet `required`
says otherwise.
-/

namespace Raml

/-- A property with its facets. -/
structure Property where
  name : String
  /-- The shape that it is based on. -/
  type : Shape
  /-- The shape as it is declared. -/
  shape : Shape
  required : Bool
  choices : Option (List Value)
  description : Option String
  pattern : Option String
  minLength : Option Int
  maxLength : Option Int
  minimum : Option Float
  maximum : Option Float
  multipleOf : Option Float
  format : Option String
  minItems : Option Int
  maxItems : Option Int
  uniqueItems : Bool
  items : Option Shape

namespace Property

/-- A property of which only the shape is known. -/
def plain (name : String) (shape : Shape) (required : Bool) : Property :=
  { name := name, type := shape, shape := shape, required := required, choices := none
    description := none, pattern := none, minLength := none, maxLength := none, minimum := none
    maximum := none, multipleOf := none, format := none, minItems := none, maxItems := none
    uniqueItems := false, items := none }

/-- The text of the type. -/
def typeText (p : Property) : String := p.type.render

/-- Whether the values are arrays. -/
def isArray (p : Property) : Bool :=
  match p.type with
  | .array _ => true
  | t => t.isBareArray

/-- Whether the values are of one of several types. -/
def isUnion (p : Property) : Bool := p.type.isUnion

/-- Whether the values are listed. -/
def isEnum (p : Property) : Bool :=
  match p.choices with
  | some (_ :: _) => true
  | _ => false

/-- The text of the type of elements; it is empty if there are none. -/
def elementText (p : Property) : String :=
  match p.type with
  | .array element => element.render
  | t =>
    if t.isBareArray then
      match p.items with
      | some s => s.render
      | none => "any"
    else ""

/-- Whether the values are arrays of arrays. -/
def isGrid (p : Property) : Bool :=
  match p.type with
  | .array (.array _) => true
  | _ => false

/-- A facet that may be missing or null, told by its own name. -/
def facet {α : Type} (name told : String) (read : Reader α) (facets : Table Value) :
    Checked (Option α) :=
  (Reader.optional read ((facets.get? name).getD .null)).under told

/-- The name that a key gives, and whether it leaves the property required. -/
def nameOfKey (key : String) : String × Bool :=
  match key.toList.getLast? with
  | some '?' => (Text.dropLast 1 key, false)
  | _ => (key, true)

/-- The property that a shape under a key declares. -/
def ofShape (key : String) (shape : Shape) : Checked Property :=
  let (name, required) := nameOfKey key
  match shape with
  | .inline type properties items facets =>
    let base := type.getD (.scalar (if properties.isEmpty then "string" else "object"))
    let needed : Value := match Table.get? "required" facets with
      | none => .bool required
      | some .null => .bool required
      | some v => v
    let unique : Value := match Table.get? "uniqueItems" facets with
      | some v => if v.isTruthy then v else .bool false
      | none => .bool false
    Property.mk name base shape <$> (Reader.truth needed).under "required"
      <*> facet "enum" "enum" (Reader.list Reader.any) facets
      <*> facet "description" "description" Reader.strictText facets
      <*> facet "pattern" "pattern" Reader.strictText facets
      <*> facet "minLength" "min_length" Reader.integer facets
      <*> facet "maxLength" "max_length" Reader.integer facets
      <*> facet "minimum" "minimum" Reader.double facets
      <*> facet "maximum" "maximum" Reader.double facets
      <*> facet "multipleOf" "multiple_of" Reader.double facets
      <*> facet "format" "format" Reader.strictText facets
      <*> facet "minItems" "min_items" Reader.integer facets
      <*> facet "maxItems" "max_items" Reader.integer facets
      <*> (Reader.truth unique).under "unique_items"
      <*> .good items
  | shape => .good (plain name shape required)

/-- The keys under which a property may be declared that is asked for by name. -/
def keysOf (name : String) : List String :=
  [name, name ++ "?", String.ofList (Text.dropEnd (· == '?') name.toList)]

/-- The property asked for by name, with or without the mark for optional ones. -/
def find? (properties : Table Shape) (name : String) : Option (Checked Property) :=
  (keysOf name).findSome? fun key => (properties.get? key).map (ofShape key)

end Property
end Raml
