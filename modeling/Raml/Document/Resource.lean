import Raml.Document.Method

/-!
# Resources

A `Resource` is a node of the tree of paths. Its node holds methods under verbs and the resources
below it under keys that begin with a slash.

The tree has no links upward. Where a path matters, the resource comes with the URIs of the
resources above it, the nearest one first: `fullUri` joins them all, and `pathName` looks for the
last part of the path that is no parameter.
-/

namespace Raml

/-- A node of the tree of paths. -/
structure Resource where
  annotations : Table Value
  uri : String
  displayName : Option String
  description : Option String
  methods : Table Method
  traits : List Choice
  type : Option Choice
  securedBy : List (Option Choice)
  uriParameters : Table Parameter
  nested : List (String × Resource)
  deriving Inhabited

namespace Resource

/-! ## Reading -/

/-- Whether a key is that of a resource. -/
def isPath (key : String) : Bool := key.toList.head? == some '/'

/-- A fault for a node that is no resource. -/
def notResource : Checked Resource := Checked.fail (.entity "Resource")

/-- The resources of a mapping, given as they were read, under their keys. -/
def collect (es : List (Value × Checked Resource)) : Checked (Table Resource) :=
  (Checked.all (es.map fun e => Reader.entry (fun _ => e.2) e.1 .null)).map fun es =>
    adoptNames uri (fun key r => { r with uri := key }) (Table.ofEntries es)

/-- Single references become lists, and verbs go to the methods. -/
def arrange (f : Fields) : Except Mismatch Fields := do
  let f := f.listify ["is", "securedBy"]
  let methods ← Fields.mappingOf "methods" (f.entries.get? "methods")
  let _ ← Fields.mappingOf "nested" (f.entries.get? "nested")
  let rest := Fields.without ["methods", "nested"]
    (fun k => (ResourceType.verbOf? k).isSome || isPath k) f.entries
  return { f with entries := rest ++ [
    ("methods", .map (Fields.gather ResourceType.verbOf? methods f.entries))] }

/-- The fields of a resource, given the resources below it. -/
def ofFields (nested : List (Value × Checked Resource)) (f : Fields) : Checked Resource :=
  Resource.mk <$> f.annotationTable
    <*> f.withDefault ["uri"] "" Reader.text
    <*> f.optional ["displayName", "display_name"] Reader.text
    <*> f.optional ["description"] Reader.text
    <*> f.collection ["methods"] [] Method.readTable
    <*> f.collection ["is", "is_"] [] (Reader.list Choice.read)
    <*> f.optional ["type"] Choice.read
    <*> f.collection ["securedBy", "secured_by"] [] Choice.readSecurity
    <*> f.collection ["uriParameters", "uri_parameters"] [] Parameter.readTable
    <*> (collect nested).under "nested"

/-- How the entries of a resource are read, given the resources below it. -/
def form (nested : List (Value × Checked Resource)) : EntityForm Resource :=
  ⟨"Resource", noShorthand, arrange, ofFields nested⟩

mutual

/-- Reads a resource. -/
def read : Value → Checked Resource
  | .null => (form []).ofEntries []
  | .map es => (form (Value.mapOf (listed es ++ branches es))).ofEntries es
  | _ => notResource

/-- The resources under the key `nested`. -/
def listed : List (Value × Value) → List (Value × Checked Resource)
  | [] => []
  | (k, v) :: rest => if k.key == "nested" then readMapping v else listed rest

/-- The resources under keys that begin with a slash; an empty node is one without entries. -/
def branches : List (Value × Value) → List (Value × Checked Resource)
  | [] => []
  | (k, v) :: rest =>
    if isPath k.key then
      (.str k.key, if v.isTruthy then read v else (form []).ofEntries []) :: branches rest
    else branches rest

/-- The resources in a mapping. -/
def readMapping : Value → List (Value × Checked Resource)
  | .map es => readEntries es
  | _ => []

/-- The resources in the entries of a mapping. -/
def readEntries : List (Value × Value) → List (Value × Checked Resource)
  | [] => []
  | (k, v) :: rest => (k, read v) :: readEntries rest

end

/-! ## Writing -/

/-- The mapping of a resource, given that of the resources below it. -/
def record (free : FreeForm) (r : Resource) (nested : Value) : Value :=
  Value.record [
    ("annotations", some (free.table r.annotations)),
    ("uri", some (.str r.uri)),
    ("displayName", Value.ofText? r.displayName),
    ("description", Value.ofText? r.description),
    ("methods", fieldOfTable (Method.toValue free) r.methods),
    ("is", some (.list (r.traits.map (Choice.toValue free)))),
    ("type", r.type.map (Choice.toValue free)),
    ("securedBy", some (.list (r.securedBy.map (Choice.toValue? free)))),
    ("uriParameters", fieldOfTable (Parameter.toValue free) r.uriParameters),
    ("nested", some nested)]

mutual

/-- The mapping of a resource. -/
def toValue (free : FreeForm) : Resource → Value
  | ⟨annotations, uri, displayName, description, methods, traits, type, securedBy, uriParameters,
      nested⟩ =>
    record free ⟨annotations, uri, displayName, description, methods, traits, type, securedBy,
      uriParameters, []⟩ (.map (toEntries free nested))

/-- The entries of resources under their keys. -/
def toEntries (free : FreeForm) : List (String × Resource) → List (Value × Value)
  | [] => []
  | (key, r) :: rest => (.str key, r.toValue free) :: toEntries free rest

end

/-! ## Paths -/

/-- The path from the root: `above` holds the URIs of the resources above, the nearest first. -/
def fullUri (above : List String) (uri : String) : String :=
  String.join (uri :: above).reverse

/-- Whether a part of a path is a name and no parameter. -/
def isName (part : List Char) : Bool := !part.isEmpty && part.getLast? != some '\x7d'

/-- The last name in a URI. -/
def lastName? (uri : String) : Option String :=
  ((Text.split '/' uri.toList).reverse.find? isName).map String.ofList

/-- The last name in the path from the root, or the empty text when there is none. -/
def pathName (above : List String) (uri : String) : String :=
  ((uri :: above).findSome? lastName?).getD ""

/-- A resource with the URIs of those above it, the nearest first. -/
structure Located where
  resource : Resource
  above : List String

namespace Located

/-- The path from the root. -/
def fullUri (l : Located) : String := Resource.fullUri l.above l.resource.uri

/-- The last name in the path from the root. -/
def pathName (l : Located) : String := Resource.pathName l.above l.resource.uri

/-- The method for a verb, which may be in any case. -/
def method? (l : Located) (verb : String) : Option Method :=
  l.resource.methods.get? (Text.Unicode.toLower verb)

end Located

mutual

/-- A resource and all below it, each before those below it. -/
def walk (above : List String) : Resource → List Located
  | ⟨annotations, uri, displayName, description, methods, traits, type, securedBy, uriParameters,
      nested⟩ =>
    ⟨⟨annotations, uri, displayName, description, methods, traits, type, securedBy, uriParameters,
      nested⟩, above⟩ :: walkAll (uri :: above) nested

/-- Several resources and all below them. -/
def walkAll (above : List String) : List (String × Resource) → List Located
  | [] => []
  | (_, r) :: rest => walk above r ++ walkAll above rest

end

end Resource
end Raml
