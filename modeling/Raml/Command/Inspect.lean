import Raml.Command.Basic
import Raml.Document.Property

/-!
# Looking into a definition

What the resolved definition holds, seen from the outside: its data and counts, and sheets of its
resources, methods, types and templates. What belongs to a library is listed under the alias of the
library. A dash stands in a cell that would be empty.
-/

namespace Raml
namespace Inspection

/-- A text, or a dash in place of the empty one. -/
def orDash (s : String) : String := if s.isEmpty then "-" else s

/-- Names one after another. -/
def listed (names : List String) : String := orDash (String.intercalate ", " names)

/-- The names of choices; one that chooses nothing has a name too. -/
def choiceNames (cs : List (Option Choice)) : String :=
  listed (cs.map fun c => match c with
    | some c => c.name
    | none => "null")

/-! ## The definition as a whole -/

/-- The data and counts of a definition. -/
def summary (a : Api) : Value :=
  let resources := a.located.map Resource.Located.resource
  let count (n : Nat) : Value := .int n
  let texts (ss : List String) : Value := .list (ss.map .str)
  .map [
    (.str "title", .str a.title),
    (.str "version", .str (orDash (a.version.getD ""))),
    (.str "raml_version", .str a.ramlVersion),
    (.str "base_uri", .str (orDash (a.baseUri.getD ""))),
    (.str "media_type", texts a.mediaType),
    (.str "protocols", texts a.protocols),
    (.str "resources", count resources.length),
    (.str "methods", count (resources.flatMap fun r => r.methods).length),
    (.str "types", count a.declared.types.length),
    (.str "traits", count a.declared.traits.length),
    (.str "resource_types", count a.declared.resourceTypes.length),
    (.str "security_schemes", texts a.declared.securitySchemes.names),
    (.str "libraries", .map (a.libraries.map fun e => (.str e.1, .str e.2.location)))]

/-! ## Resources and methods -/

/-- The row of a resource. -/
def resourceRow (l : Resource.Located) : List String :=
  let r := l.resource
  [l.fullUri, listed (r.methods.map fun e => e.2.name),
    (r.type.map Choice.name).getD "-", choiceNames (r.traits.map some)]

/-- The resources of a definition. -/
def resources (a : Api) : Sheet :=
  ⟨["Path", "Methods", "Type", "Traits"], a.located.map resourceRow⟩

/-- How much of a description is shown. -/
def longestDescription : Nat := 60

/-- The start of the first line of a description. -/
def firstLine (description : String) : String :=
  match (Text.proseLines (Text.trim description)).head? with
  | some line => String.ofList (line.toList.take longestDescription)
  | none => "-"

/-- The first of several lists that holds anything. -/
def firstGiven {α : Type} : List (List α) → List α
  | [] => []
  | l :: rest => if l.isEmpty then firstGiven rest else l

/-- The row of a method. -/
def methodRow (a : Api) (l : Resource.Located) (m : Method) : List String :=
  [m.name, l.fullUri, firstLine (m.description.getD ""), listed m.responses.names,
    choiceNames (firstGiven [m.securedBy, l.resource.securedBy, a.securedBy])]

/-- The methods of a definition. -/
def methods (a : Api) : Sheet :=
  ⟨["Method", "Path", "Description", "Responses", "Secured By"],
    a.located.flatMap fun l => l.resource.methods.map fun e => methodRow a l e.2⟩

/-! ## Declarations -/

/-- The declarations of a definition and of its libraries, with what stands before their names. -/
def declarations (a : Api) : List (String × Declarations) :=
  ("", a.declared) :: a.libraries.map fun e => (e.1 ++ ".", e.2.declared)

/-- How many properties are named. -/
def mostProperties : Nat := 5

/-- The first names, and dots when there are more. -/
def abridged (names : List String) : String :=
  orDash (String.intercalate ", " (names.take mostProperties) ++
    (if mostProperties < names.length then "..." else ""))

/-- The row of a type; its properties have to be what their facets say. -/
def typeRow (name : String) (t : TypeDeclaration) : Except Error (List String) := do
  let properties ← t.properties.mapM fun e =>
    (Property.ofShape e.1 e.2).toExcept.mapError Error.facets
  return [name, t.typeText, abridged (properties.map Property.name)]

/-- The types of a definition. -/
def types (a : Api) : Except Error Sheet := do
  let rows ← (declarations a).mapM fun d =>
    d.2.types.mapM fun e => typeRow (d.1 ++ e.1) e.2
  return ⟨["Type", "Base", "Properties"], rows.flatten⟩

/-- The rows of the templates among declarations. -/
def templateRows (lead : String) (d : Declarations) : List (List String) :=
  d.traits.map (fun e => ["trait", lead ++ e.1, orDash (e.2.usage.getD "")]) ++
    d.resourceTypes.map fun e => ["resource type", lead ++ e.1, orDash (e.2.usage.getD "")]

/-- The traits and resource types of a definition. -/
def templates (a : Api) : Sheet :=
  ⟨["Kind", "Name", "Usage"], (declarations a).flatMap fun d => templateRows d.1 d.2⟩

end Inspection

namespace Command

/-- Writes a sheet, or says that there is nothing to put on it. -/
def sheetOr (o : Output) (nothing : String) (s : Sheet) : Action Unit :=
  if s.rows.isEmpty then o.tell (.info nothing) else o.presentSheet s

/-- What can be looked at, with what is shown of it. -/
def views : List (String × (Output → Api → Action Unit)) := [
  ("info", fun o a => o.respond (Inspection.summary a)),
  ("resources", fun o a => o.presentSheet (Inspection.resources a)),
  ("methods", fun o a => o.presentSheet (Inspection.methods a)),
  ("types", fun o a => do
    sheetOr o "No types declared." (← ofExcept (Inspection.types a))),
  ("traits", fun o a => do
    sheetOr o "No traits or resource types declared." (Inspection.templates a))]

/-- Shows something of the definition at a location. -/
def view (c : Setting) (shown : Output → Api → Action Unit) (args : List String) :
    Command Unit := do
  let l ← readArguments [] 1 args
  shown c.output (← api c (l.others.headD ""))

end Command
end Raml
