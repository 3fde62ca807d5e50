import Raml.Table
import Raml.Value.Display

/-!
# Shapes

A shape is what stands in a place that takes a type: a type built into the language or the text of
a foreign schema, a reference to a declared type or a union of types, an array, or a declaration
written on the spot.
-/

namespace Raml

/-- What stands in a place that takes a type. -/
inductive Shape where
  /-- A built-in type, or the text of a schema. -/
  | scalar (text : String)
  /-- A declared type, or a union as it is written. -/
  | reference (name : String)
  /-- An array of elements of one shape. -/
  | array (element : Shape)
  /-- A declaration; `facets` are all entries other than the first three fields. -/
  | inline (type : Option Shape) (properties : List (String × Shape)) (items : Option Shape)
      (facets : List (String × Value))
  deriving Inhabited

namespace Shape

/-- The declaration that says nothing. -/
def empty : Shape := .inline none [] none []

/-- Whether the shape is the declaration that says nothing. -/
def isEmpty : Shape → Bool
  | .inline none [] none [] => true
  | _ => false

/-- The types built into the language. -/
def builtins : List String :=
  ["any", "object", "array", "union", "string", "number", "integer", "boolean", "date-only",
    "time-only", "datetime-only", "datetime", "file", "nil"]

/-- Whether a text is the text of a schema: it opens like JSON or XML. -/
def isSchema (cs : List Char) : Bool :=
  match Text.dropStart Text.isBlank cs with
  | '\x7b' :: _ => true
  | '<' :: _ => true
  | _ => false

/-- Whether the shape is the built-in type `array`, whose elements are said elsewhere. -/
def isBareArray : Shape → Bool
  | .scalar text => text == "array"
  | _ => false

end Shape
end Raml
