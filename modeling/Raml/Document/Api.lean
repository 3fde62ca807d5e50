import Raml.Document.Declarations

/-!
# API definitions

The root document: its own declarations, what holds for the API as a whole, and the tree of
resources under keys that begin with a slash.
-/

namespace Raml

/-! ## Documentation -/

/-- A page of documentation. -/
structure Documentation where
  annotations : Table Value
  title : String
  content : String
  deriving Inhabited

namespace Documentation

/-- How the node of a page is read. -/
def form : EntityForm Documentation := ⟨"Documentation", noShorthand, .ok, fun f =>
  Documentation.mk <$> f.annotationTable
    <*> f.withDefault ["title"] "" Reader.text
    <*> f.withDefault ["content"] "" Reader.text⟩

/-- Reads a page. -/
def read : Reader Documentation := form.read

/-- The mapping of a page. -/
def toValue (free : FreeForm) (d : Documentation) : Value :=
  Value.record [
    ("annotations", some (free.table d.annotations)),
    ("title", some (.str d.title)),
    ("content", some (.str d.content))]

end Documentation

/-! ## The root document -/

/-- An API definition. -/
structure Api where
  annotations : Table Value
  declared : Declarations
  libraries : Table Library
  location : String
  title : String
  version : Option String
  baseUri : Option String
  baseUriParameters : Table Parameter
  protocols : List String
  mediaType : List String
  documentation : List Documentation
  schemas : Value
  securedBy : List (Option Choice)
  resources : Table Resource
  ramlVersion : String
  deriving Inhabited

namespace Api

/-- Single values become lists, and paths go to the resources. -/
def arrange (f : Fields) : Except Mismatch Fields := do
  let f := f.listify ["securedBy", "protocols"]
  let entries : Table Value := f.entries.map fun (n, v) =>
    match v with
    | .str s => (n, if n == "mediaType" then .list [.str s] else .str s)
    | v => (n, v)
  let own ← Fields.mappingOf "resources" (entries.get? "resources")
  let path (k : String) : Option String := if Resource.isPath k then some k else none
  let rest := Fields.without ["resources"] Resource.isPath entries
  let resources : Value := .map (Fields.gather path own entries)
  return { f with entries := rest ++ [("resources", resources)] }

/-- Reads a mapping of resources. -/
def readResources : Reader (Table Resource) := fun v =>
  (Reader.table Resource.read v).map
    (adoptNames Resource.uri fun key r => { r with uri := key })

/-- The fields of an API definition, given the libraries in it. -/
def ofFields (libraries : List (Value × Checked Library)) (f : Fields) : Checked Api :=
  Api.mk <$> f.annotationTable
    <*> Declarations.ofFields f
    <*> Library.field libraries f
    <*> f.withDefault ["location"] "" Reader.text
    <*> f.withDefault ["title"] "" Reader.text
    <*> f.optional ["version"] Reader.text
    <*> f.optional ["baseUri", "base_uri"] Reader.text
    <*> f.collection ["baseUriParameters", "base_uri_parameters"] [] Parameter.readTable
    <*> f.collection ["protocols"] [] (Reader.list Reader.text)
    <*> f.collection ["mediaType", "media_type"] [] (Reader.list Reader.text)
    <*> f.collection ["documentation"] [] (Reader.list Documentation.read)
    <*> f.any ["schemas"]
    <*> f.collection ["securedBy", "secured_by"] [] Choice.readSecurity
    <*> f.collection ["resources"] [] readResources
    <*> f.withDefault ["raml_version"] "" Reader.text

/-- How the entries of an API definition are read, given the libraries in it. -/
def form (libraries : List (Value × Checked Library)) : EntityForm Api :=
  ⟨"APIDefinition", noShorthand, arrange, ofFields libraries⟩

/-- Reads an API definition. -/
def read : Reader Api
  | .map es => (form (Library.listed es)).ofEntries es
  | v => (form []).read v

/-- The mapping of an API definition. -/
def toValue (free : FreeForm) (a : Api) : Value :=
  Value.record (("annotations", some (free.table a.annotations)) ::
    a.declared.valueFields free ++ [
      ("libraries", some (.map (Library.toEntries free a.libraries))),
      ("location", some (.str a.location)),
      ("title", some (.str a.title)),
      ("version", Value.ofText? a.version),
      ("baseUri", Value.ofText? a.baseUri),
      ("baseUriParameters", fieldOfTable (Parameter.toValue free) a.baseUriParameters),
      ("protocols", some (.list (a.protocols.map .str))),
      ("mediaType", some (.list (a.mediaType.map .str))),
      ("documentation", some (.list (a.documentation.map (Documentation.toValue free)))),
      ("schemas", a.schemas.given?.map free),
      ("securedBy", some (.list (a.securedBy.map (Choice.toValue? free)))),
      ("resources", some (.map (Resource.toEntries free a.resources))),
      ("raml_version", some (.str a.ramlVersion))])

/-- Every resource of the tree, each before those below it. -/
def located (a : Api) : List Resource.Located := Resource.walkAll [] a.resources

/-- The first resource with the given path. -/
def resource? (a : Api) (path : String) : Option Resource.Located :=
  a.located.find? fun l => l.fullUri == path

end Api
end Raml
