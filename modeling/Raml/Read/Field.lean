import Raml.Read.Scalar
import Raml.Shape.Written

/-!
# Reading the fields of an entity

An entity of the document is a mapping. `Fields.ofEntries` makes a table of it: keys become texts,
and entries whose key is in parentheses are set apart as annotations. A field is looked up by the
name that documents use and then by its other name, and problems with it are told by the name
under which it was found.
-/

namespace Raml

/-- A reader of nodes. -/
abbrev Reader (α : Type) := Value → Checked α

namespace Reader

variable {α : Type}

/-- Any node. -/
def any : Reader Value := .good

/-- A text. -/
def text : Reader String := fun v => Checked.ofExcept (readText v)

/-- A text, where numbers are none. -/
def strictText : Reader String := fun v => Checked.ofExcept (readStrictText v)

/-- An integer. -/
def integer : Reader Int := fun v => Checked.ofExcept (readInteger v)

/-- A double. -/
def double : Reader Float := fun v => Checked.ofExcept (readDouble v)

/-- A truth value. -/
def truth : Reader Bool := fun v => Checked.ofExcept (readTruth v)

/-- A value of the kind or a text with a placeholder; both readings are told when both fail. -/
def templated (k : Kind α) : Reader (Templated α) := fun v =>
  match k.readTemplated v with
  | .ok t => .good t
  | .error (m, n) => .bad [⟨[k.name], m⟩, ⟨["constrained-str"], n⟩]

/-- A shape, or nothing. -/
def shape? : Reader (Option Shape) := fun v =>
  match Shape.ofValue? v with
  | .ok s => .good s
  | .error f => Checked.fail (.rule f.message)

/-- A shape. -/
def shape : Reader Shape := fun v =>
  match Shape.ofValue v with
  | .ok s => .good s
  | .error f => Checked.fail (.rule f.message)

/-- The items of a list, each under its place. -/
def items (read : Reader α) (place : Nat) : List Value → Checked (List α)
  | [] => .good []
  | v :: vs => List.cons <$> (read v).under (toString place) <*> items read (place + 1) vs

/-- A list. -/
def list (read : Reader α) : Reader (List α)
  | .list vs => items read 0 vs
  | .set vs => items read 0 vs
  | .pair a b => items read 0 [a, b]
  | _ => Checked.fail .list

/-- The part of a path that names a key: a truth value goes by its number. -/
def keyPart : Value → String
  | .str s => s
  | .bool b => toString (Value.truth b)
  | v => v.literal

/-- An entry of a mapping; the key has to be a text or a number. -/
def entry (read : Reader α) (key value : Value) : Checked (String × α) :=
  Prod.mk <$> ((text key).under "[key]").under (keyPart key) <*> (read value).under (keyPart key)

/-- A mapping. -/
def table (read : Reader α) : Reader (Table α)
  | .map es => (Checked.all (es.map fun e => entry read e.1 e.2)).map Table.ofEntries
  | _ => Checked.fail .mapping

/-- Nothing, or something. -/
def optional (read : Reader α) : Reader (Option α)
  | .null => .good none
  | v => (read v).map some

end Reader

/-- The fields of an entity and its annotations. -/
structure Fields where
  entries : Table Value
  annotations : List (Value × Value)

namespace Fields

/-- Whether a key is that of an annotation: parentheses around a text without newlines. -/
def isAnnotation (key : String) : Bool :=
  match key.toList with
  | '(' :: cs =>
    let line := if cs.getLast? = some '\n' then cs.dropLast else cs
    line.getLast? == some ')' && !line.contains '\n'
  | _ => false

/-- The mapping that stands under a name, when nothing stands for the empty one. -/
def mappingOf (name : String) : Option Value → Except Mismatch (List (Value × Value))
  | none => .ok []
  | some .null => .ok []
  | some (.map es) => .ok es
  | some v => .error (.rule (name ++ " must be a mapping, got " ++ v.kind))

/-- Refuses a mapping with a key that has no text. -/
def checkKeys (es : List (Value × Value)) : Except Mismatch Unit :=
  if es.all fun e => e.1.isShown then .ok () else .error (.rule Value.longMessage)

/-- The fields and the annotations among the entries of a mapping. -/
def ofEntries (es : List (Value × Value)) : Except Mismatch Fields := do
  let own ← mappingOf "annotations" (Value.get? "annotations" es)
  checkKeys es
  return es.foldl (fun f e =>
    let key := e.1.key
    if isAnnotation key then
      let name := String.ofList (key.toList.tail.dropLast)
      { f with annotations := Value.insert (.str name) e.2 f.annotations }
    else if key == "annotations" then f
    else { f with entries := f.entries.set key e.2 }) ⟨[], own⟩

variable {α : Type}

/-- The first of the given names under which something stands, and what it is. -/
def find? (names : List String) (f : Fields) : Option (String × Value) :=
  names.findSome? fun n => (f.entries.get? n).map (n, ·)

/-- The first of the given names under which something other than null stands. -/
def given? (names : List String) (f : Fields) : Option (String × Value) :=
  names.findSome? fun n => ((f.entries.get? n).filter fun v => !v.isNull).map (n, ·)

/-- A field that has to be there. -/
def required (name : String) (read : Reader α) (f : Fields) : Checked α :=
  match f.entries.get? name with
  | some v => (read v).under name
  | none => (Checked.fail .missing).under name

/-- A field with a value for when it is not there. -/
def withDefault (names : List String) (fallback : α) (read : Reader α) (f : Fields) : Checked α :=
  match f.find? names with
  | some (n, v) => (read v).under n
  | none => .good fallback

/-- A field that may be missing or null. -/
def optional (names : List String) (read : Reader α) (f : Fields) : Checked (Option α) :=
  f.withDefault names none (Reader.optional read)

/-- A field that holds a shape or nothing. -/
def shape? (names : List String) (f : Fields) : Checked (Option Shape) :=
  f.withDefault names none Reader.shape?

/-- A field that holds anything. -/
def any (names : List String) (f : Fields) : Checked Value :=
  f.withDefault names .null Reader.any

/-- A field for which null stands for the empty collection. -/
def collection (names : List String) (empty : α) (read : Reader α) (f : Fields) : Checked α :=
  match f.given? names with
  | some (n, v) => (read v).under n
  | none => .good empty

/-- The annotations. -/
def annotationTable (f : Fields) : Checked (Table Value) :=
  (Reader.table Reader.any (.map f.annotations)).under "annotations"

/-- A field whose single text or mapping stands for a list of one. -/
def listify (names : List String) (f : Fields) : Fields :=
  { f with entries := f.entries.map fun (n, v) =>
    if names.contains n then
      match v with
      | .str s => (n, .list [.str s])
      | .map es => (n, .list [.map es])
      | v => (n, v)
    else (n, v) }

/-- The entries that are no field go into the field that collects them. -/
def collectFacets (known : List String) (f : Fields) : Except Mismatch Fields := do
  let own ← mappingOf "facets" (f.entries.get? "facets")
  let rest := f.entries.filter fun e => !known.contains e.1
  let facets := rest.foldl (fun es e => Value.insert (.str e.1) e.2 es) own
  let kept := f.entries.filter fun e => known.contains e.1
  return { f with entries := Table.set "facets" (.map facets) (Table.erase "facets" kept) }

end Fields

/-- How the node of an entity is read: what a node that is no mapping stands for, and the fields. -/
structure EntityForm (α : Type) where
  /-- The name of the entity in messages. -/
  name : String
  /-- The entries that a text stands for, if it stands for an entity. -/
  shorthand : String → Option (List (Value × Value))
  /-- Moves entries to the fields that they belong to. -/
  arrange : Fields → Except Mismatch Fields
  fields : Fields → Checked α

namespace EntityForm

variable {α : Type}

/-- Reads the entries of an entity. -/
def ofEntries (form : EntityForm α) (es : List (Value × Value)) : Checked α :=
  match (Fields.ofEntries es).bind form.arrange with
  | .ok f => form.fields f
  | .error m => Checked.fail m

/-- Reads the node of an entity; null stands for one without entries. -/
def read (form : EntityForm α) : Reader α
  | .null => form.ofEntries []
  | .map es => form.ofEntries es
  | .str s =>
    match form.shorthand s with
    | some es => form.ofEntries es
    | none => Checked.fail (.entity form.name)
  | _ => Checked.fail (.entity form.name)

end EntityForm

/-- Text that stands for no entity. -/
def noShorthand (_ : String) : Option (List (Value × Value)) := none

/-- Text that stands for an entity of that type. -/
def typeShorthand (s : String) : Option (List (Value × Value)) := some [(.str "type", .str s)]

/-- The mapping of the fields that are there. -/
def Value.record (fields : List (String × Option Value)) : Value :=
  .map (fields.filterMap fun (n, v) => v.map (Value.str n, ·))

/-- A text, or nothing. -/
def Value.ofText? (s : Option String) : Option Value := s.map .str

/-- A node unless it is null. -/
def Value.given? (v : Value) : Option Value := if v.isNull then none else some v

/-- The mapping of a table. -/
def Value.ofTable {α : Type} (write : α → Value) (t : Table α) : Value :=
  .map (t.map fun (n, a) => (.str n, write a))

end Raml
