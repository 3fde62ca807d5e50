import Raml.Read.Field

/-!
# Parameters and references

A `Parameter` describes a header, a query parameter or a part of a URI. A `Choice` refers to a
trait, a resource type or a security scheme by name and gives it values for its placeholders.

Writing takes a function for the nodes that documents may fill with anything, so that they can be
written in other forms than they were read.
-/

namespace Raml

/-- Writes a node that may hold anything. -/
abbrev FreeForm := Value → Value

/-- The mapping of a table of nodes that may hold anything. -/
def FreeForm.table (free : FreeForm) (t : Table Value) : Value := free (Value.ofTable id t)

/-- The mapping of a table, as a field. -/
def fieldOfTable {α : Type} (write : α → Value) (t : Table α) : Option Value :=
  some (Value.ofTable write t)

/-- Gives every member without a name the one that its key says. -/
def adoptNames {α : Type} (name : α → String) (rename : String → α → α) (t : Table α) : Table α :=
  t.map fun (key, a) => (key, if (name a).isEmpty then rename key a else a)

/-! ## Parameters -/

/-- A header, a query parameter or a part of a URI. -/
structure Parameter where
  annotations : Table Value
  name : String
  displayName : Option String
  description : Option String
  type : Option String
  choices : Option (List Value)
  pattern : Option String
  minLength : Option (Templated Int)
  maxLength : Option (Templated Int)
  minimum : Option (Templated Float)
  maximum : Option (Templated Float)
  format : Option String
  sample : Value
  fallback : Value
  repeats : Option (Templated Bool)
  required : Option (Templated Bool)
  items : Value
  deriving Inhabited

namespace Parameter

/-- A parameter of which only the name is known. -/
def named (name : String) : Parameter :=
  { annotations := [], name := name, displayName := none, description := none, type := none
    choices := none, pattern := none, minLength := none, maxLength := none, minimum := none
    maximum := none, format := none, sample := .null, fallback := .null, repeats := none
    required := none, items := .null }

/-- A parameter is required unless it says otherwise. -/
def isRequired (p : Parameter) : Bool :=
  match p.required with
  | some (.exact false) => false
  | _ => true

/-- The fields of a parameter. -/
def ofFields (f : Fields) : Checked Parameter :=
  Parameter.mk <$> f.annotationTable
    <*> f.withDefault ["name"] "" Reader.text
    <*> f.optional ["displayName", "display_name"] Reader.text
    <*> f.optional ["description"] Reader.text
    <*> f.optional ["type"] Reader.text
    <*> f.optional ["enum"] (Reader.list Reader.any)
    <*> f.optional ["pattern"] Reader.text
    <*> f.optional ["minLength", "min_length"] (Reader.templated .integer)
    <*> f.optional ["maxLength", "max_length"] (Reader.templated .integer)
    <*> f.optional ["minimum"] (Reader.templated .double)
    <*> f.optional ["maximum"] (Reader.templated .double)
    <*> f.optional ["format"] Reader.text
    <*> f.any ["example"]
    <*> f.any ["default"]
    <*> f.optional ["repeat"] (Reader.templated .truth)
    <*> f.optional ["required"] (Reader.templated .truth)
    <*> f.any ["items"]

/-- How the node of a parameter is read; a text is its type. -/
def form : EntityForm Parameter := ⟨"NamedParameter", typeShorthand, .ok, ofFields⟩

/-- Reads a parameter. -/
def read : Reader Parameter := form.read

/-- Reads a mapping of parameters. -/
def readTable : Reader (Table Parameter) := fun v =>
  (Reader.table read v).map (adoptNames name fun key p => { p with name := key })

/-- The mapping of a parameter. -/
def toValue (free : FreeForm) (p : Parameter) : Value :=
  let anything (v : Value) : Option Value := v.given?.map free
  Value.record [
    ("annotations", some (free.table p.annotations)),
    ("name", some (.str p.name)),
    ("displayName", Value.ofText? p.displayName),
    ("description", Value.ofText? p.description),
    ("type", Value.ofText? p.type),
    ("enum", p.choices.map fun vs => free (.list vs)),
    ("pattern", Value.ofText? p.pattern),
    ("minLength", p.minLength.map (Templated.toValue .integer)),
    ("maxLength", p.maxLength.map (Templated.toValue .integer)),
    ("minimum", p.minimum.map (Templated.toValue .double)),
    ("maximum", p.maximum.map (Templated.toValue .double)),
    ("format", Value.ofText? p.format),
    ("example", anything p.sample),
    ("default", anything p.fallback),
    ("repeat", p.repeats.map (Templated.toValue .truth)),
    ("required", p.required.map (Templated.toValue .truth)),
    ("items", anything p.items)]

end Parameter

/-! ## References -/

/-- A reference by name, with values for the placeholders of what it refers to. -/
structure Choice where
  annotations : Table Value
  name : String
  parameters : Table Value
  deriving Inhabited

namespace Choice

/-- A reference with values and nothing else. -/
def applied (name : String) (parameters : Table Value) : Choice := ⟨[], name, parameters⟩

/-- A single entry under another name is a reference to that name with those values. -/
def arrange (f : Fields) : Fields :=
  match f.entries with
  | [(key, v)] =>
    if key == "name" || key == "parameters" then f
    else { f with entries := [("name", .str key), ("parameters", v)] }
  | _ => f

/-- The fields of a reference. -/
def ofFields (f : Fields) : Checked Choice :=
  Choice.mk <$> f.annotationTable
    <*> f.required "name" Reader.text
    <*> f.collection ["parameters"] [] (Reader.table Reader.any)

/-- How the node of a reference is read; a text is its name. -/
def form : EntityForm Choice :=
  ⟨"DefinitionChoice", fun s => some [(.str "name", .str s)], fun f => .ok (arrange f), ofFields⟩

/-- Reads a reference. -/
def read : Reader Choice := form.read

/-- Reads references to security schemes, among which null says that none is needed. -/
def readSecurity : Reader (List (Option Choice)) := Reader.list (Reader.optional read)

/-- The mapping of a reference. -/
def toValue (free : FreeForm) (c : Choice) : Value :=
  Value.record [
    ("annotations", some (free.table c.annotations)),
    ("name", some (.str c.name)),
    ("parameters", some (free.table c.parameters))]

/-- The node of a reference that may be null. -/
def toValue? (free : FreeForm) : Option Choice → Value
  | none => .null
  | some c => c.toValue free

end Choice
end Raml
