import Raml.Document.Resource

/-!
# Declarations

What a document or a library declares for use by name: types, traits, resource types, annotation
types and security schemes, and the libraries that it uses in turn. A `Library` holds the
libraries that it uses once they are loaded.
-/

namespace Raml

/-! ## Types -/

/-- A declared type. -/
structure TypeDeclaration where
  annotations : Table Value
  name : String
  type : Option Shape
  properties : Table Shape
  items : Option Shape
  description : Option String
  displayName : Option String
  sample : Value
  samples : Value
  choices : Option (List Value)
  facets : Table Value
  deriving Inhabited

namespace TypeDeclaration

/-- The fields with a meaning of their own; all others are facets. -/
def known : List String :=
  ["annotations", "name", "type", "properties", "items", "description", "display_name",
    "displayName", "example", "examples", "enum", "facets"]

/-- The fields of a declared type. -/
def ofFields (f : Fields) : Checked TypeDeclaration :=
  TypeDeclaration.mk <$> f.annotationTable
    <*> f.withDefault ["name"] "" Reader.text
    <*> f.shape? ["type"]
    <*> f.collection ["properties"] [] (Reader.table Reader.shape)
    <*> f.shape? ["items"]
    <*> f.optional ["description"] Reader.text
    <*> f.optional ["displayName", "display_name"] Reader.text
    <*> f.any ["example"]
    <*> f.any ["examples"]
    <*> f.optional ["enum"] (Reader.list Reader.any)
    <*> f.collection ["facets"] [] (Reader.table Reader.any)

/-- How the node of a declared type is read; a text is the type that it is based on. -/
def form : EntityForm TypeDeclaration :=
  ⟨"TypeDeclaration", typeShorthand, Fields.collectFacets known, ofFields⟩

/-- Reads a declared type. -/
def read : Reader TypeDeclaration := form.read

/-- Reads a mapping of declared types. -/
def readTable : Reader (Table TypeDeclaration) := fun v =>
  (Reader.table read v).map (adoptNames name fun key t => { t with name := key })

/-- The mapping of a declared type. -/
def toValue (free : FreeForm) (t : TypeDeclaration) : Value :=
  Value.record [
    ("annotations", some (free.table t.annotations)),
    ("name", some (.str t.name)),
    ("type", t.type.map fun s => free s.toValue),
    ("properties", fieldOfTable (fun s => free s.toValue) t.properties),
    ("items", t.items.map fun s => free s.toValue),
    ("description", Value.ofText? t.description),
    ("displayName", Value.ofText? t.displayName),
    ("example", t.sample.given?.map free),
    ("examples", t.samples.given?.map free),
    ("enum", t.choices.map fun vs => free (.list vs)),
    ("facets", some (free.table t.facets))]

/-- The text of the type that the declaration is based on. -/
def typeText (t : TypeDeclaration) : String :=
  match t.type with
  | some s => s.render
  | none => if t.properties.isEmpty then "string" else "object"

end TypeDeclaration

/-! ## Security schemes -/

/-- What a security scheme adds to messages. -/
structure DescribedBy where
  annotations : Table Value
  headers : Table Parameter
  queryParameters : Table Parameter
  queryString : Option Shape
  responses : Table Response
  deriving Inhabited

namespace DescribedBy

/-- The description that adds nothing. -/
def empty : DescribedBy := ⟨[], [], [], none, []⟩

/-- The fields of a description. -/
def ofFields (f : Fields) : Checked DescribedBy :=
  DescribedBy.mk <$> f.annotationTable
    <*> f.collection ["headers"] [] Parameter.readTable
    <*> f.collection ["queryParameters", "query_parameters"] [] Parameter.readTable
    <*> f.shape? ["queryString", "query_string"]
    <*> f.collection ["responses"] [] Response.readTable

/-- How the node of a description is read. -/
def form : EntityForm DescribedBy :=
  ⟨"DescribedBy", noShorthand, Response.withCodes, ofFields⟩

/-- Reads a description. -/
def read : Reader DescribedBy := form.read

/-- The mapping of a description. -/
def toValue (free : FreeForm) (d : DescribedBy) : Value :=
  Value.record [
    ("annotations", some (free.table d.annotations)),
    ("headers", fieldOfTable (Parameter.toValue free) d.headers),
    ("queryParameters", fieldOfTable (Parameter.toValue free) d.queryParameters),
    ("queryString", d.queryString.map fun s => free s.toValue),
    ("responses", fieldOfTable (Response.toValue free) d.responses)]

end DescribedBy

/-- A way to be allowed to call a method. -/
structure SecurityScheme where
  annotations : Table Value
  name : String
  type : Option String
  displayName : Option String
  description : Option String
  describedBy : DescribedBy
  settings : Table Value
  deriving Inhabited

namespace SecurityScheme

/-- The fields of a security scheme. -/
def ofFields (f : Fields) : Checked SecurityScheme :=
  SecurityScheme.mk <$> f.annotationTable
    <*> f.withDefault ["name"] "" Reader.text
    <*> f.optional ["type"] Reader.text
    <*> f.optional ["displayName", "display_name"] Reader.text
    <*> f.optional ["description"] Reader.text
    <*> f.collection ["describedBy", "described_by"] .empty DescribedBy.read
    <*> f.collection ["settings"] [] (Reader.table Reader.any)

/-- How the node of a security scheme is read. -/
def form : EntityForm SecurityScheme := ⟨"SecurityScheme", noShorthand, .ok, ofFields⟩

/-- Reads a security scheme. -/
def read : Reader SecurityScheme := form.read

/-- Reads a mapping of security schemes. -/
def readTable : Reader (Table SecurityScheme) := fun v =>
  (Reader.table read v).map (adoptNames name fun key s => { s with name := key })

/-- The mapping of a security scheme. -/
def toValue (free : FreeForm) (s : SecurityScheme) : Value :=
  Value.record [
    ("annotations", some (free.table s.annotations)),
    ("name", some (.str s.name)),
    ("type", Value.ofText? s.type),
    ("displayName", Value.ofText? s.displayName),
    ("description", Value.ofText? s.description),
    ("describedBy", some (s.describedBy.toValue free)),
    ("settings", some (free.table s.settings))]

end SecurityScheme

/-! ## Declarations -/

/-- What a document or a library declares. -/
structure Declarations where
  types : Table TypeDeclaration
  traits : Table Trait
  resourceTypes : Table ResourceType
  annotationTypes : Table Value
  securitySchemes : Table SecurityScheme
  /-- The libraries used, under their aliases, by reference. -/
  uses : Table String
  deriving Inhabited

namespace Declarations

/-- The fields of declarations. -/
def ofFields (f : Fields) : Checked Declarations :=
  Declarations.mk <$> f.collection ["types"] [] TypeDeclaration.readTable
    <*> f.collection ["traits"] [] Trait.readTable
    <*> f.collection ["resourceTypes", "resource_types"] [] ResourceType.readTable
    <*> f.collection ["annotationTypes", "annotation_types"] [] (Reader.table Reader.any)
    <*> f.collection ["securitySchemes", "security_schemes"] [] SecurityScheme.readTable
    <*> f.collection ["uses"] [] (Reader.table Reader.text)

/-- The fields of the mapping of declarations. -/
def valueFields (free : FreeForm) (d : Declarations) : List (String × Option Value) := [
  ("types", fieldOfTable (TypeDeclaration.toValue free) d.types),
  ("traits", fieldOfTable (Trait.toValue free) d.traits),
  ("resourceTypes", fieldOfTable (ResourceType.toValue free) d.resourceTypes),
  ("annotationTypes", some (free.table d.annotationTypes)),
  ("securitySchemes", fieldOfTable (SecurityScheme.toValue free) d.securitySchemes),
  ("uses", fieldOfTable .str d.uses)]

end Declarations

/-! ## Libraries -/

/-- A library, with the libraries that it uses once they are loaded. -/
structure Library where
  annotations : Table Value
  declared : Declarations
  libraries : List (String × Library)
  location : String
  usage : Option String
  deriving Inhabited

namespace Library

/-- A fault for a node that is no library. -/
def notLibrary : Checked Library := Checked.fail (.entity "Library")

/-- The libraries of a mapping, given as they were read, under their keys. -/
def collect (es : List (Value × Checked Library)) : Checked (Table Library) :=
  (Checked.all (es.map fun e => Reader.entry (fun _ => e.2) e.1 .null)).map Table.ofEntries

/-- The field that holds libraries, given as they were read. -/
def field (libraries : List (Value × Checked Library)) (f : Fields) : Checked (Table Library) :=
  f.collection ["libraries"] [] fun
    | .map _ => collect libraries
    | _ => Checked.fail .mapping

/-- The fields of a library, given the libraries in it. -/
def ofFields (libraries : List (Value × Checked Library)) (f : Fields) : Checked Library :=
  Library.mk <$> f.annotationTable
    <*> Declarations.ofFields f
    <*> field libraries f
    <*> f.withDefault ["location"] "" Reader.text
    <*> f.optional ["usage"] Reader.text

/-- How the entries of a library are read, given the libraries in it. -/
def form (libraries : List (Value × Checked Library)) : EntityForm Library :=
  ⟨"Library", noShorthand, .ok, ofFields libraries⟩

mutual

/-- Reads a library. -/
def read : Value → Checked Library
  | .null => (form []).ofEntries []
  | .map es => (form (listed es)).ofEntries es
  | _ => notLibrary

/-- The libraries under the key `libraries`. -/
def listed : List (Value × Value) → List (Value × Checked Library)
  | [] => []
  | (k, v) :: rest => if k.key == "libraries" then readMapping v else listed rest

/-- The libraries in a mapping. -/
def readMapping : Value → List (Value × Checked Library)
  | .map es => readEntries es
  | _ => []

/-- The libraries in the entries of a mapping. -/
def readEntries : List (Value × Value) → List (Value × Checked Library)
  | [] => []
  | (k, v) :: rest => (k, read v) :: readEntries rest

end

mutual

/-- The mapping of a library. -/
def toValue (free : FreeForm) : Library → Value
  | ⟨annotations, declared, libraries, location, usage⟩ =>
    Value.record (("annotations", some (free.table annotations)) ::
      declared.valueFields free ++ [
        ("libraries", some (.map (toEntries free libraries))),
        ("location", some (.str location)),
        ("usage", Value.ofText? usage)])

/-- The entries of libraries under their aliases. -/
def toEntries (free : FreeForm) : List (String × Library) → List (Value × Value)
  | [] => []
  | (key, l) :: rest => (.str key, l.toValue free) :: toEntries free rest

end

end Library
end Raml
