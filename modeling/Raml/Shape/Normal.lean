import Raml.Shape.Written

/-!
# Normal form of shapes

The built-in type `array` with the elements said beside it is a long way to write an array.
`collapse` turns that pair into one array shape, as far as the elements have a shape of their own;
`normalize` does so at every depth, and a declaration that is then nothing but an array becomes
that array. `IsNormal` says what a shape without shortcuts looks like.
-/

namespace Raml.Shape

/--
A type and the items beside it with the shortcut for arrays taken out. What the items say besides
their type stays behind.
-/
def collapse (type items : Option Shape) : Option Shape × Option Shape :=
  match type, items with
  | some t, some i =>
    if t.isBareArray then
      match i with
      | .inline none properties inner facets =>
        (some t, some (.inline none properties inner facets))
      | .inline (some element) properties inner facets =>
        let rest := Shape.inline none properties inner facets
        (some (.array element), if rest.isEmpty then none else some rest)
      | element => (some (.array element), none)
    else (some t, some i)
  | t, i => (t, i)

/-- A declaration, or the array when it is nothing but one. -/
def settle (type : Option Shape) (properties : List (String × Shape)) (items : Option Shape)
    (facets : List (String × Value)) : Shape :=
  match type, properties, items, facets with
  | some (.array element), [], none, [] => .array element
  | _, _, _, _ => .inline type properties items facets

mutual

/-- The shape with every shortcut for arrays taken out. -/
def normalize : Shape → Shape
  | .scalar text => .scalar text
  | .reference name => .reference name
  | .array element => .array element.normalize
  | .inline type properties items facets =>
    let pair := collapse (normalizeOption type) (normalizeOption items)
    settle pair.1 (normalizeEntries properties) pair.2 facets

/-- A shape that may be missing, normalized. -/
def normalizeOption : Option Shape → Option Shape
  | none => none
  | some shape => some shape.normalize

/-- Properties, each normalized. -/
def normalizeEntries : List (String × Shape) → List (String × Shape)
  | [] => []
  | (name, shape) :: rest => (name, shape.normalize) :: normalizeEntries rest

end

/-- Whether a type and the items beside it are free of the shortcut for arrays. -/
def pairIsNormal (type items : Option Shape) : Bool :=
  match type, items with
  | some t, some i => !t.isBareArray ||
    (match i with
      | .inline none _ _ _ => true
      | _ => false)
  | _, _ => true

/-- Whether a declaration says more than that it is an array. -/
def saysMore (type : Option Shape) (properties : List (String × Shape)) (items : Option Shape)
    (facets : List (String × Value)) : Bool :=
  match type, properties, items, facets with
  | some (.array _), [], none, [] => false
  | _, _, _, _ => true

mutual

/-- Whether a shape is free of shortcuts at every depth. -/
def IsNormal : Shape → Prop
  | .scalar _ => True
  | .reference _ => True
  | .array element => element.IsNormal
  | .inline type properties items facets =>
    OptionIsNormal type ∧ EntriesAreNormal properties ∧ OptionIsNormal items ∧
      pairIsNormal type items = true ∧ saysMore type properties items facets = true

/-- Whether a shape that may be missing is free of shortcuts. -/
def OptionIsNormal : Option Shape → Prop
  | none => True
  | some shape => shape.IsNormal

/-- Whether every property is free of shortcuts. -/
def EntriesAreNormal : List (String × Shape) → Prop
  | [] => True
  | (_, shape) :: rest => shape.IsNormal ∧ EntriesAreNormal rest

end

end Raml.Shape
