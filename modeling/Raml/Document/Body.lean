import Raml.Document.Parameter

/-!
# Bodies and responses

A `Body` says what a message of one media type holds. The `Bodies` of a message are either one
flat body for whatever media type is usual, or one body for each media type; a key with a slash is
a media type.
-/

namespace Raml

/-! ## Bodies -/

/-- What a message of one media type holds. -/
structure Body where
  annotations : Table Value
  type : Option Shape
  items : Option Shape
  properties : Table Shape
  schema : Option String
  description : Option String
  sample : Value
  headers : Table Parameter
  facets : Table Value
  deriving Inhabited

namespace Body

/-- The body that says nothing. -/
def empty : Body := ⟨[], none, none, [], none, none, .null, [], []⟩

/-- The fields with a meaning of their own; all others are facets. -/
def known : List String :=
  ["annotations", "type", "items", "properties", "schema_", "schema", "description", "example",
    "headers", "facets"]

/-- The fields of a body. -/
def ofFields (f : Fields) : Checked Body :=
  Body.mk <$> f.annotationTable
    <*> f.shape? ["type"]
    <*> f.shape? ["items"]
    <*> f.collection ["properties"] [] (Reader.table Reader.shape)
    <*> f.optional ["schema", "schema_"] Reader.text
    <*> f.optional ["description"] Reader.text
    <*> f.any ["example"]
    <*> f.collection ["headers"] [] Parameter.readTable
    <*> f.collection ["facets"] [] (Reader.table Reader.any)

/-- How the node of a body is read; a text is its type. -/
def form : EntityForm Body := ⟨"Body", typeShorthand, Fields.collectFacets known, ofFields⟩

/-- Reads a body. -/
def read : Reader Body := form.read

/-- The mapping of a body. -/
def toValue (free : FreeForm) (b : Body) : Value :=
  Value.record [
    ("annotations", some (free.table b.annotations)),
    ("type", b.type.map fun s => free s.toValue),
    ("items", b.items.map fun s => free s.toValue),
    ("properties", fieldOfTable (fun s => free s.toValue) b.properties),
    ("schema", Value.ofText? b.schema),
    ("description", Value.ofText? b.description),
    ("example", b.sample.given?.map free),
    ("headers", fieldOfTable (Parameter.toValue free) b.headers),
    ("facets", some (free.table b.facets))]

/-- The text of the type; there is none if nothing says what it is. -/
def typeText (b : Body) : String :=
  match b.type with
  | some s => s.render
  | none => if b.properties.isEmpty then "" else "object"

end Body

/-- The bodies of a message. -/
structure Bodies where
  annotations : Table Value
  flat : Option Body
  byMediaType : Table Body
  deriving Inhabited

namespace Bodies

/-- No bodies. -/
def empty : Bodies := ⟨[], none, []⟩

/-- Whether there is no body at all. -/
def isEmpty (b : Bodies) : Bool := b.flat.isNone && b.byMediaType.isEmpty

/-- Every body, the flat one first. -/
def all (b : Bodies) : List Body := b.flat.toList ++ b.byMediaType.map Prod.snd

/-- Parts the entries into media types and those of a flat body, unless they are parted. -/
def arrange (f : Fields) : Fields :=
  let names := f.entries.names
  if !names.isEmpty && names.all (fun n => n == "default" || n == "media_types") then f
  else
    let isMedia (e : String × Value) : Bool := e.1.toList.contains '/'
    let part (name : String) (es : Table Value) : Table Value :=
      if es.isEmpty then [] else [(name, Value.ofTable id es)]
    let media := part "media_types" (f.entries.filter isMedia)
    let flat := part "default" (f.entries.filter fun e => !isMedia e)
    { f with entries := media ++ flat }

/-- The fields of bodies. -/
def ofFields (f : Fields) : Checked Bodies :=
  Bodies.mk <$> f.annotationTable
    <*> f.optional ["default"] Body.read
    <*> f.collection ["media_types"] [] (Reader.table Body.read)

/-- How the node of bodies is read; a text is the type of the flat one. -/
def form : EntityForm Bodies :=
  ⟨"Bodies", fun s => some [(.str "default", .map [(.str "type", .str s)])],
    fun f => .ok (arrange f), ofFields⟩

/-- Reads bodies. -/
def read : Reader Bodies := form.read

/-- The mapping of bodies. -/
def toValue (free : FreeForm) (b : Bodies) : Value :=
  Value.record [
    ("annotations", some (free.table b.annotations)),
    ("default", b.flat.map (Body.toValue free)),
    ("media_types", fieldOfTable (Body.toValue free) b.byMediaType)]

end Bodies

/-! ## Responses -/

/-- What is answered with one status code. -/
structure Response where
  annotations : Table Value
  code : String
  description : Option String
  headers : Table Parameter
  bodies : Bodies
  deriving Inhabited

namespace Response

/-- The response with a code that says nothing else. -/
def ofCode (code : String) : Response := ⟨[], code, none, [], .empty⟩

/-- The fields of a response. -/
def ofFields (f : Fields) : Checked Response :=
  Response.mk <$> f.annotationTable
    <*> f.withDefault ["code"] "" Reader.text
    <*> f.optional ["description"] Reader.text
    <*> f.collection ["headers"] [] Parameter.readTable
    <*> f.collection ["body", "bodies"] .empty Bodies.read

/-- How the node of a response is read. -/
def form : EntityForm Response := ⟨"Response", noShorthand, .ok, ofFields⟩

/-- Reads a response. -/
def read : Reader Response := form.read

/-- Reads a mapping of responses. -/
def readTable : Reader (Table Response) := fun v =>
  (Reader.table read v).map (adoptNames code fun key r => { r with code := key })

/-- The mapping of a response. -/
def toValue (free : FreeForm) (r : Response) : Value :=
  Value.record [
    ("annotations", some (free.table r.annotations)),
    ("code", some (.str r.code)),
    ("description", Value.ofText? r.description),
    ("headers", fieldOfTable (Parameter.toValue free) r.headers),
    ("body", some (r.bodies.toValue free))]

/-- The codes in a mapping of responses become texts. -/
def nameCodes (f : Fields) : Fields :=
  { f with entries := f.entries.map fun (n, v) =>
    if n == "responses" then
      match v with
      | .map es => (n, .map (Value.mapOf (es.map fun e => (.str e.1.key, e.2))))
      | v => (n, v)
    else (n, v) }

/-- The fields with codes that are texts, if every code has one. -/
def withCodes (f : Fields) : Except Mismatch Fields := do
  match f.entries.get? "responses" with
  | some (.map es) => Fields.checkKeys es
  | _ => .ok ()
  return nameCodes f

end Response
end Raml
