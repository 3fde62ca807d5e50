import Raml.Document.Body
import Raml.Text.Unicode.Case

/-!
# Methods and templates

A `Method` is what a resource does on one verb of HTTP. A `Trait` is a fragment of a method and a
`ResourceType` a fragment of a resource; both are templates, whose texts may hold placeholders.
-/

namespace Raml

/-! ## Methods -/

/-- What a resource does on one verb. -/
structure Method where
  annotations : Table Value
  name : String
  displayName : Option String
  description : Option String
  queryParameters : Table Parameter
  headers : Table Parameter
  queryString : Option Shape
  responses : Table Response
  bodies : Bodies
  protocols : List String
  traits : List Choice
  securedBy : List (Option Choice)
  deriving Inhabited

/-- The verbs that a resource may have methods for. -/
def verbs : List String := ["get", "patch", "put", "head", "post", "delete", "options"]

namespace Method

/-- A method of which only the name is known. -/
def named (name : String) : Method :=
  ⟨[], name, none, none, [], [], none, [], .empty, [], [], []⟩

/-- The fields of a method. -/
def ofFields (f : Fields) : Checked Method :=
  Method.mk <$> f.annotationTable
    <*> f.withDefault ["name"] "" Reader.text
    <*> f.optional ["displayName", "display_name"] Reader.text
    <*> f.optional ["description"] Reader.text
    <*> f.collection ["queryParameters", "query_parameters"] [] Parameter.readTable
    <*> f.collection ["headers"] [] Parameter.readTable
    <*> f.shape? ["queryString", "query_string"]
    <*> f.collection ["responses"] [] Response.readTable
    <*> f.collection ["body", "bodies"] .empty Bodies.read
    <*> f.collection ["protocols"] [] (Reader.list Reader.text)
    <*> f.collection ["is", "is_"] [] (Reader.list Choice.read)
    <*> f.collection ["securedBy", "secured_by"] [] Choice.readSecurity

/-- Single references become lists and codes become texts. -/
def arrange (f : Fields) : Except Mismatch Fields :=
  Response.withCodes (f.listify ["is", "securedBy", "protocols"])

/-- How the node of a method is read. -/
def form : EntityForm Method := ⟨"Method", noShorthand, arrange, ofFields⟩

/-- Reads a method. -/
def read : Reader Method := form.read

/-- The name of the method under a key: the verb in upper case, without question marks after it. -/
def nameOfKey (key : String) : String :=
  String.ofList (Text.Unicode.upperChars (Text.dropEnd (· == '?') key.toList))

/-- Reads a mapping of methods. -/
def readTable : Reader (Table Method) := fun v =>
  (Reader.table read v).map (adoptNames name fun key m => { m with name := nameOfKey key })

/-- The fields of the mapping of a method. -/
def valueFields (free : FreeForm) (m : Method) : List (String × Option Value) := [
  ("annotations", some (free.table m.annotations)),
  ("name", some (.str m.name)),
  ("displayName", Value.ofText? m.displayName),
  ("description", Value.ofText? m.description),
  ("queryParameters", fieldOfTable (Parameter.toValue free) m.queryParameters),
  ("headers", fieldOfTable (Parameter.toValue free) m.headers),
  ("queryString", m.queryString.map fun s => free s.toValue),
  ("responses", fieldOfTable (Response.toValue free) m.responses),
  ("body", some (m.bodies.toValue free)),
  ("protocols", some (.list (m.protocols.map .str))),
  ("is", some (.list (m.traits.map (Choice.toValue free)))),
  ("securedBy", some (.list (m.securedBy.map (Choice.toValue? free))))]

/-- The mapping of a method. -/
def toValue (free : FreeForm) (m : Method) : Value := Value.record (m.valueFields free)

/-- The verb that the name of the method says. -/
def verb (m : Method) : String := Text.Unicode.toLower m.name

end Method

/-! ## Templates -/

/-- A fragment of a method, to be merged into methods that name it. -/
structure Trait where
  method : Method
  usage : Option String
  deriving Inhabited

namespace Trait

/-- How the node of a trait is read. -/
def form : EntityForm Trait :=
  ⟨"Trait", noShorthand, Method.arrange, fun f =>
    Trait.mk <$> Method.ofFields f <*> f.optional ["usage"] Reader.text⟩

/-- Reads a trait. -/
def read : Reader Trait := form.read

/-- Reads a mapping of traits. -/
def readTable : Reader (Table Trait) := fun v =>
  (Reader.table read v).map (adoptNames (fun t => t.method.name)
    fun key t => { t with method := { t.method with name := key } })

/-- The mapping of a trait. -/
def toValue (free : FreeForm) (t : Trait) : Value :=
  Value.record (t.method.valueFields free ++ [("usage", Value.ofText? t.usage)])

end Trait

/-- A fragment of a resource, to be merged into resources that name it. -/
structure ResourceType where
  annotations : Table Value
  name : String
  usage : Option String
  displayName : Option String
  description : Option String
  uriParameters : Table Parameter
  traits : List Choice
  securedBy : List (Option Choice)
  methods : Table Method
  /-- Methods for the verbs that a resource has by itself. -/
  optionalMethods : Table Method
  deriving Inhabited

/-- A node that counts as given, or the empty mapping. -/
def Value.orEmpty (v : Value) : Value := if v.isTruthy then v else .map []

/-- Moves the entries that `key` accepts into a mapping, under the key that it gives them. -/
def Fields.gather (key : String → Option String) (own : List (Value × Value)) (t : Table Value) :
    List (Value × Value) :=
  t.foldl (fun es e => match key e.1 with
    | some k => Value.insert (.str k) e.2.orEmpty es
    | none => es) own

/-- The entries that are neither in `names` nor accepted by `isKey`. -/
def Fields.without (names : List String) (isKey : String → Bool) (t : Table Value) :
    Table Value :=
  t.filter fun e => !names.contains e.1 && !isKey e.1

namespace ResourceType

/-- The verb of a key, if it is one. -/
def verbOf? (key : String) : Option String := if verbs.contains key then some key else none

/-- The verb of a key with a question mark after it. -/
def optionalVerbOf? (key : String) : Option String :=
  match key.toList.getLast? with
  | some '?' => verbOf? (Text.dropLast 1 key)
  | _ => none

/-- Single references become lists, and verbs go to the methods. -/
def arrange (f : Fields) : Except Mismatch Fields := do
  let f := f.listify ["is", "securedBy"]
  let methods ← Fields.mappingOf "methods" (f.entries.get? "methods")
  let optionals ← Fields.mappingOf "optional_methods" (f.entries.get? "optional_methods")
  let rest := Fields.without ["methods", "optional_methods"]
    (fun k => (verbOf? k).isSome || (optionalVerbOf? k).isSome) f.entries
  return { f with entries := rest ++ [
    ("methods", .map (Fields.gather verbOf? methods f.entries)),
    ("optional_methods", .map (Fields.gather optionalVerbOf? optionals f.entries))] }

/-- The fields of a resource type. -/
def ofFields (f : Fields) : Checked ResourceType :=
  ResourceType.mk <$> f.annotationTable
    <*> f.withDefault ["name"] "" Reader.text
    <*> f.optional ["usage"] Reader.text
    <*> f.optional ["displayName", "display_name"] Reader.text
    <*> f.optional ["description"] Reader.text
    <*> f.collection ["uriParameters", "uri_parameters"] [] Parameter.readTable
    <*> f.collection ["is", "is_"] [] (Reader.list Choice.read)
    <*> f.collection ["securedBy", "secured_by"] [] Choice.readSecurity
    <*> f.collection ["methods"] [] Method.readTable
    <*> f.collection ["optional_methods"] [] Method.readTable

/-- How the node of a resource type is read. -/
def form : EntityForm ResourceType := ⟨"ResourceType", noShorthand, arrange, ofFields⟩

/-- Reads a resource type. -/
def read : Reader ResourceType := form.read

/-- Reads a mapping of resource types. -/
def readTable : Reader (Table ResourceType) := fun v =>
  (Reader.table read v).map (adoptNames name fun key r => { r with name := key })

/-- The mapping of a resource type. -/
def toValue (free : FreeForm) (r : ResourceType) : Value :=
  Value.record [
    ("annotations", some (free.table r.annotations)),
    ("name", some (.str r.name)),
    ("usage", Value.ofText? r.usage),
    ("displayName", Value.ofText? r.displayName),
    ("description", Value.ofText? r.description),
    ("uriParameters", fieldOfTable (Parameter.toValue free) r.uriParameters),
    ("is", some (.list (r.traits.map (Choice.toValue free)))),
    ("securedBy", some (.list (r.securedBy.map (Choice.toValue? free)))),
    ("methods", fieldOfTable (Method.toValue free) r.methods),
    ("optional_methods", fieldOfTable (Method.toValue free) r.optionalMethods)]

end ResourceType
end Raml
