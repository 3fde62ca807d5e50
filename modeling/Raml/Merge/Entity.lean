import Raml.Merge.Table

/-!
# Merging entities

A template is merged into a parameter, a body, a response, a method or a resource field by field.
What the child says stays; what it leaves open is filled from the template. A text that replaces
another kind of value has to become that kind again once its placeholders are filled in.
-/

namespace Raml.Merge

/-! ## Fields -/

/-- A text filled in from a template, read as the kind of value that the field holds. -/
def retype {α : Type} (k : Kind α) (label field : String) : Option String →
    Except Error (Option (Templated α))
  | none => .ok none
  | some s =>
    if h : Template.hasBrackets s = true then .ok (some (.text s h))
    else match k.readTemplated (.str s) with
      | .ok t => .ok (some t)
      | .error (m, n) =>
        let line (m : Mismatch) : String :=
          field ++ ": " ++ m.message ++ " (got " ++ Text.Quoted.text s ++ ")"
        .error (.decode ("template value for " ++ label) [line m, line n])

/-- A field that a template may leave open. -/
def templated {α : Type} (app : Application) (k : Kind α) (label field : String)
    (child parent : Option (Templated α)) : Except Error (Option (Templated α)) :=
  match parent, child with
  | none, child => .ok child
  | some (.text s _), none => do retype k label field (← app.text none (some s))
  | some (.text s _), some (.text c _) => do retype k label field (← app.text (some c) (some s))
  | some (.text _ _), some (.exact a) => .ok (some (.exact a))
  | some (.exact a), none => .ok (some (.exact a))
  | some (.exact _), some c => .ok (some c)

/-- A field that holds anything. -/
def anything (app : Application) (child parent : Value) : Except Error Value :=
  match parent, child with
  | .null, child => .ok child
  | .str s, .null => do return ((← app.text none (some s)).map Value.str).getD .null
  | .str s, .str c => do return ((← app.text (some c) (some s)).map Value.str).getD .null
  | .str _, child => .ok child
  | parent, .null => app.value parent
  | _, child => .ok child

/-- A list of values, taken as a whole. -/
def choices (app : Application) (child parent : Option (List Value)) :
    Except Error (Option (List Value)) :=
  match parent, child with
  | none, child => .ok child
  | some vs, none => do return some (← vs.mapM app.value)
  | some _, child => .ok child

/-! ## Entities -/

/-- Merges a template into a parameter. -/
def parameter (app : Application) (child parent : Parameter) : Except Error Parameter := do
  let type ← app.typeName child.type parent.type
  let displayName ← app.text child.displayName parent.displayName
  let description ← app.text child.description parent.description
  let enumerated ← choices app child.choices parent.choices
  let pattern ← app.text child.pattern parent.pattern
  let minLength ←
    templated app .integer child.name "min_length" child.minLength parent.minLength
  let maxLength ←
    templated app .integer child.name "max_length" child.maxLength parent.maxLength
  let minimum ← templated app .double child.name "minimum" child.minimum parent.minimum
  let maximum ← templated app .double child.name "maximum" child.maximum parent.maximum
  let format ← app.text child.format parent.format
  let sample ← anything app child.sample parent.sample
  let fallback ← anything app child.fallback parent.fallback
  let repeats ← templated app .truth child.name "repeat" child.repeats parent.repeats
  let required ← templated app .truth child.name "required" child.required parent.required
  let items ← anything app child.items parent.items
  let annotations ← values app child.annotations parent.annotations
  return { annotations, name := child.name, displayName, description, type
           choices := enumerated, pattern, minLength, maxLength, minimum, maximum, format
           sample, fallback, repeats, required, items }

/-- Merges the parameters of a template into those of a child. -/
def parameters (app : Application) : Table Parameter → Table Parameter →
    Except Error (Table Parameter) :=
  table app (parameter app) Parameter.named

/-- Adds the properties of a template that a child lacks. -/
def properties (app : Application) : Table Shape → Table Shape → Except Error (Table Shape) :=
  additions app app.instantiate

/-- Merges a template into a body. -/
def body (app : Application) (child parent : Body) : Except Error Body := do
  let type ← app.shape child.type parent.type
  let items ← app.shape child.items parent.items
  let schema ← app.text child.schema parent.schema
  let description ← app.text child.description parent.description
  let sample ← anything app child.sample parent.sample
  let properties ← properties app child.properties parent.properties
  let headers ← parameters app child.headers parent.headers
  let facets ← values app child.facets parent.facets
  let annotations ← values app child.annotations parent.annotations
  return { annotations, type, items, properties, schema, description, sample, headers, facets }

/-- Merges the flat body of a template into that of a child. -/
def flatBody (app : Application) (child parent : Option Body) : Except Error (Option Body) :=
  match parent with
  | none => .ok child
  | some p => (body app (child.getD .empty) p).map some

/-- Merges the bodies of a template into those of a child. -/
def bodies (app : Application) (child parent : Bodies) : Except Error Bodies := do
  let flat ← flatBody app child.flat parent.flat
  let byMediaType ← table app (body app) (fun _ => .empty) child.byMediaType parent.byMediaType
  let annotations ← values app child.annotations parent.annotations
  return { annotations, flat, byMediaType }

/-- Merges a template into a response. -/
def response (app : Application) (child parent : Response) : Except Error Response := do
  let description ← app.text child.description parent.description
  let headers ← parameters app child.headers parent.headers
  let bodies ← bodies app child.bodies parent.bodies
  let annotations ← values app child.annotations parent.annotations
  return { annotations, code := child.code, description, headers, bodies }

/-- Whether two references name the same thing; null is the same as null. -/
def sameName (a b : Option String) : Bool := a == b

/-- Adds the security schemes of a template that a child lacks. -/
def security (app : Application) (child parent : List (Option Choice)) :
    Except Error (List (Option Choice)) := do
  let others ← parent.mapM app.choice?
  return appendMissing sameName (fun c => c.map Choice.name) child others

/-- Merges a template into a method. -/
def method (app : Application) (child parent : Method) : Except Error Method := do
  let displayName ← app.text child.displayName parent.displayName
  let description ← app.text child.description parent.description
  let queryParameters ← parameters app child.queryParameters parent.queryParameters
  let headers ← parameters app child.headers parent.headers
  let queryString ← app.shape child.queryString parent.queryString
  let responses ← table app (response app) Response.ofCode child.responses parent.responses
  let bodies ← bodies app child.bodies parent.bodies
  let protocols := appendMissing (· == ·) id child.protocols parent.protocols
  let securedBy ← security app child.securedBy parent.securedBy
  let annotations ← values app child.annotations parent.annotations
  return { child with
    annotations, displayName, description, queryParameters, headers, queryString, responses
    bodies, protocols, securedBy }

/-- Merges the fields of a resource type into a resource, methods apart. -/
def resource (app : Application) (child : Resource) (parent : ResourceType) :
    Except Error Resource := do
  let description ← app.text child.description parent.description
  let displayName ← app.text child.displayName parent.displayName
  let uriParameters ← parameters app child.uriParameters parent.uriParameters
  let securedBy ← security app child.securedBy parent.securedBy
  let annotations ← values app child.annotations parent.annotations
  return { child with annotations, displayName, description, uriParameters, securedBy }

end Raml.Merge
