import Raml.Load.Library
import Raml.Normal.Entity
import Raml.Resolution.Method
import Raml.Value.Portable

/-!
# Resolving an API definition

The tree of resources is walked from the top, each resource before those below it. A resource
takes over from its resource type, gets the methods that the type has and it lacks, and its methods
take over from their templates; then it is brought into normal form. The first error ends it all.
-/

namespace Raml
namespace Resolution

/-- The resource type that a resource names, if it names one. -/
def resourceType (symbols : Symbols) (r : Resource) : Except Error (Option Applied) :=
  match r.type with
  | none => .ok none
  | some c =>
    if c.name.isEmpty then .ok none
    else do return some ⟨← symbols.resourceType none c.name, c.parameters⟩

/-- The methods of a resource, and those of its resource type that it lacks, still empty. -/
def withMethodsOf (methods : Table Method) (t : ResourceType) : Table Method :=
  t.methods.names.foldl (fun ms verb =>
    if ms.has verb then ms else ms.set verb (Method.named (Text.Unicode.toUpper verb))) methods

/-- A resource that has taken over from its resource type, methods apart. -/
def applyToResource (r : Resource.Located) (a : Applied) : Except Error Resource := do
  let d := Template.Dictionary.ofResource r a.parameters
  let own ← Merge.resource (a.symbol.application d) r.resource a.symbol.template
  return { own with methods := withMethodsOf own.methods a.symbol.template }

/-- Methods with all templates applied. -/
def methods (symbols : Symbols) (r : Resource.Located) (applied : Option Applied)
    (declared : List String) : Table Method → Except Error (Table Method)
  | [] => .ok []
  | (verb, m) :: rest => do
    let m ← method symbols r applied (declared.contains verb) m
    return (verb, m) :: (← methods symbols r applied declared rest)

/-- A resource with all templates applied and in normal form, apart from those below it. -/
def resource (symbols : Symbols) (above : List String) (r : Resource) : Except Error Resource := do
  let applied ← resourceType symbols r
  let own ← match applied with
    | none => .ok r
    | some a => applyToResource ⟨r, above⟩ a
  let methods ← methods symbols ⟨own, above⟩ applied r.methods.names own.methods
  symbols.checkSecurity own.securedBy
  Resource.normalize { own with methods }

mutual

/-- A resource and all below it, resolved. -/
def tree (symbols : Symbols) (above : List String) : Resource → Except Error Resource
  | ⟨annotations, uri, displayName, description, methods, traits, type, securedBy, uriParameters,
      nested⟩ => do
    let own ← resource symbols above ⟨annotations, uri, displayName, description, methods, traits,
      type, securedBy, uriParameters, []⟩
    let nested ← trees symbols (uri :: above) nested
    return { own with nested }

/-- Resources and all below them, resolved. -/
def trees (symbols : Symbols) (above : List String) :
    List (String × Resource) → Except Error (List (String × Resource))
  | [] => .ok []
  | (key, r) :: rest => do
    let r ← tree symbols above r
    return (key, r) :: (← trees symbols above rest)

end

end Resolution

/-- An API definition, its libraries loaded, with every template applied. -/
def Api.resolve (a : Api) : Except Error Api := do
  let symbols := Symbols.ofApi a
  let a := a.normalizeDeclared
  symbols.checkSecurity a.securedBy
  let resources ← Resolution.trees symbols [] a.resources
  return { a with resources }

/-- The mapping of an API definition in the form for other programs. -/
def Api.dump (a : Api) : Except Error Value :=
  let v := a.toValue Value.portable
  if v.hasBytes then .error .encoding
  else if (a.toValue id).keysShown then .ok v
  else .error (.value .number)

namespace Access

/-- Loads the libraries of an API definition and resolves it. -/
def resolve (a : Access) (base source : String) (api : Api) : Load Api := do
  let api ← Shelving.toLoad (a.libraries [source] base api)
  ofExcept api.resolve

/-- The resolved API definition at a location. -/
def parse (a : Access) (source : String) : Load Api := do
  let draft ← a.loadDocument [] source
  let base ← ofExcept (Location.folder source)
  let api ← ofExcept (Api.build source draft.version draft.entries)
  a.resolve base source api

/-- The resolved API definition that a text holds; references start from the folder `base`. -/
def parseText (a : Access) (base source text : String) : Load Api := do
  let draft ← a.loadText [] base source text
  let api ← ofExcept (Api.build source draft.version draft.entries)
  a.resolve base source api

end Access
end Raml
