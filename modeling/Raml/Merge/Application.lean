import Raml.Document.Resource
import Raml.Error
import Raml.Shape.Qualify
import Raml.Template.Placeholder

/-!
# Applying a template

An `Application` is what is known when one template is applied: the values of its placeholders,
and if a library declares it, the alias of the library and the names that the library declares.
Its functions bring one value of a template into the place of a child's: a child that says
something of its own keeps it, and names of the library are qualified.
-/

namespace Raml

/-- The circumstances of applying one template. -/
structure Application where
  dictionary : Template.Dictionary
  aliasName : Option String
  /-- The types that the library of the template declares. -/
  types : List String
  /-- The security schemes that the library of the template declares. -/
  schemes : List String
  deriving Inhabited

namespace Application

/-- The application without values and without a library. -/
def empty : Application := ⟨[], none, [], []⟩

/-- The alias of the library, if there is one with a name. -/
def aliasName? (app : Application) : Option String := app.aliasName.filter fun a => !a.isEmpty

/-- A step of filling in placeholders. -/
def filled {α : Type} (r : Except Template.Fault α) : Except Error α := r.mapError Error.ofTemplate

/-- The text of a child, or else that of its template. -/
def text (app : Application) (child parent : Option String) : Except Error (Option String) :=
  filled (Template.substitute child parent app.dictionary)

/-- A node of a template. -/
def value (app : Application) (v : Value) : Except Error Value :=
  filled (Template.expand app.dictionary v)

/-- A shape with the names of the library qualified. -/
def qualify (app : Application) (s : Shape) : Shape :=
  match app.aliasName? with
  | none => s
  | some a => s.qualify ⟨a, app.types⟩

/-- The type name of a child, or else that of its template. -/
def typeName (app : Application) (child parent : Option String) :
    Except Error (Option String) := do
  if Template.stands child then return child
  match ← app.text child parent with
  | none => return none
  | some merged =>
    if merged.isEmpty || Shape.isSchema merged.toList then return some merged
    else return some (app.qualify (Shape.ofText merged)).render

mutual

/-- Whether a node holds the brackets of a placeholder anywhere, keys included. -/
def hasBrackets : Value → Bool
  | .str s => Template.hasBrackets s
  | .list items => anyHasBrackets items
  | .map entries => entriesHaveBrackets entries
  | _ => false

/-- Whether one of the nodes holds the brackets of a placeholder. -/
def anyHasBrackets : List Value → Bool
  | [] => false
  | v :: rest => hasBrackets v || anyHasBrackets rest

/-- Whether one of the entries holds the brackets of a placeholder. -/
def entriesHaveBrackets : List (Value × Value) → Bool
  | [] => false
  | (k, v) :: rest => hasBrackets k || hasBrackets v || entriesHaveBrackets rest

end

/-- A shape of a template. -/
def instantiate (app : Application) (s : Shape) : Except Error Shape := do
  let v ← app.value s.toValue
  let shape ← (Shape.ofValue v).mapError Error.shape
  return app.qualify shape

/-- The shape of a child, or else that of its template. -/
def shape (app : Application) (child parent : Option Shape) : Except Error (Option Shape) :=
  match parent with
  | none => .ok child
  | some p =>
    match child with
    | some c =>
      if hasBrackets c.toValue then (app.instantiate p).map some else .ok (some c)
    | none => (app.instantiate p).map some

/-- The name of a security scheme, qualified if the library of the template declares it. -/
def schemeName (app : Application) (name : String) : String :=
  match app.aliasName? with
  | none => name
  | some a => if app.schemes.contains name then a ++ "." ++ name else name

/-- The text of a template, or the raw text when nothing is left of it. -/
def name (app : Application) (raw : String) : Except Error String := do
  match ← app.text none (some raw) with
  | none => return raw
  | some s => return if s.isEmpty then raw else s

/-- A reference of a template to a security scheme. -/
def choice (app : Application) (c : Choice) : Except Error Choice := do
  let name ← app.name c.name
  let parameters ← c.parameters.mapM fun (key, v) => do
    let k ← app.value (.str key)
    let v ← app.value v
    return (k.display, v)
  return Choice.applied (app.schemeName name) (Table.ofEntries parameters)

/-- A reference of a template to a security scheme, which may be null. -/
def choice? (app : Application) : Option Choice → Except Error (Option Choice)
  | none => .ok none
  | some c => (app.choice c).map some

end Application

/-! ## Dictionaries -/

namespace Template.Dictionary

/-- The values for a template applied to a resource: the names of its path outrank parameters. -/
def ofResource (r : Resource.Located) (parameters : Dictionary) : Dictionary :=
  (Table.set "resourcePath" (.str r.fullUri) parameters).set "resourcePathName" (.str r.pathName)

/-- The values for a template applied to a method of a resource. -/
def ofMethod (r : Resource.Located) (m : Method) (parameters : Dictionary) : Dictionary :=
  (ofResource r parameters).set "methodName" (.str m.verb)

end Template.Dictionary
end Raml
