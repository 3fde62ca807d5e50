import Raml.Document.Api
import Raml.Merge.Entity
import Raml.Shape.Normal

/-!
# Normal form of entities

Once all templates are applied, shortcuts are taken out: arrays get their short form, a flat body
is folded into the bodies of the media types when there are any, and a parameter whose key ends in
a question mark gets the name before the mark and is not required unless it says so.
-/

namespace Raml

/-! ## Parameters -/

/-- The parameter under a key, its mark for optional parameters taken out. -/
def Parameter.normalize (key : String) (p : Parameter) : Parameter :=
  if Text.endsWith "?" key then
    { p with name := Text.dropLast 1 key, required := p.required.or (some (.exact false)) }
  else p

/-- Parameters, each under its key. -/
def Parameter.normalizeTable (t : Table Parameter) : Table Parameter :=
  t.map fun (key, p) => (key, p.normalize key)

/-! ## Bodies -/

namespace Body

/-- A body with its arrays in short form. -/
def normalize (b : Body) : Body :=
  let pair := Shape.collapse (Shape.normalizeOption b.type) (Shape.normalizeOption b.items)
  { b with
    type := pair.1
    items := pair.2
    properties := Shape.normalizeEntries b.properties
    headers := Parameter.normalizeTable b.headers }

end Body

namespace Bodies

/-- The flat body folded into those of the media types, if there are any. -/
def fold (b : Bodies) : Except Error Bodies :=
  match b.flat, b.byMediaType with
  | some flat, m :: ms => do
    let all ← Table.mapValuesM (fun body => Merge.body .empty body flat) (m :: ms)
    return { b with flat := none, byMediaType := all }
  | _, _ => .ok b

/-- Bodies with at most one way to say what holds for a media type. -/
def normalize (b : Bodies) : Except Error Bodies := do
  let b ← b.fold
  return { b with
    flat := b.flat.map Body.normalize
    byMediaType := b.byMediaType.mapValues Body.normalize }

end Bodies

/-- A response in normal form. -/
def Response.normalize (r : Response) : Except Error Response := do
  let bodies ← r.bodies.normalize
  return { r with headers := Parameter.normalizeTable r.headers, bodies }

/-! ## Methods and resources -/

/-- A method in normal form. -/
def Method.normalize (m : Method) : Except Error Method := do
  let bodies ← m.bodies.normalize
  let responses ← Table.mapValuesM Response.normalize m.responses
  return { m with
    queryParameters := Parameter.normalizeTable m.queryParameters
    headers := Parameter.normalizeTable m.headers
    queryString := Shape.normalizeOption m.queryString
    bodies, responses }

/-- A resource in normal form, apart from the resources below it. -/
def Resource.normalize (r : Resource) : Except Error Resource := do
  let methods ← Table.mapValuesM Method.normalize r.methods
  return { r with uriParameters := Parameter.normalizeTable r.uriParameters, methods }

/-! ## Declarations -/

/-- A declared type with its arrays in short form. -/
def TypeDeclaration.normalize (t : TypeDeclaration) : TypeDeclaration :=
  let pair := Shape.collapse (Shape.normalizeOption t.type) (Shape.normalizeOption t.items)
  { t with
    type := pair.1
    items := pair.2
    properties := Shape.normalizeEntries t.properties }

/-- Declarations with every type in normal form. -/
def Declarations.normalize (d : Declarations) : Declarations :=
  { d with types := d.types.mapValues TypeDeclaration.normalize }

mutual

/-- A library with every type in normal form, also in the libraries that it uses. -/
def Library.normalize : Library → Library
  | ⟨annotations, declared, libraries, location, usage⟩ =>
    ⟨annotations, declared.normalize, Library.normalizeAll libraries, location, usage⟩

/-- Libraries with every type in normal form. -/
def Library.normalizeAll : List (String × Library) → List (String × Library)
  | [] => []
  | (aliasName, l) :: rest => (aliasName, l.normalize) :: Library.normalizeAll rest

end

/-- An API definition with every declared type in normal form. -/
def Api.normalizeDeclared (a : Api) : Api :=
  { a with declared := a.declared.normalize, libraries := Library.normalizeAll a.libraries }

end Raml
