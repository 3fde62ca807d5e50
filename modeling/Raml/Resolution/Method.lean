import Raml.Resolution.Symbols

/-!
# Resolving a method

A method takes over from templates in a fixed order, and since a merge never replaces what is
there, earlier ones win: the traits of its resource, its own traits, the traits that the resource
type names and those that its templates for the verb name, and at last these templates. The
optional template counts only where the resource itself has the method.
-/

namespace Raml

/-- A reference with the placeholders in its values filled in. -/
def Choice.instantiate (d : Template.Dictionary) (c : Choice) : Except Error Choice := do
  let parameters ← c.parameters.mapM fun (key, v) => do
    let k ← Application.filled (Template.expand d (.str key))
    let v ← Application.filled (Template.expand d v)
    return (k.display, v)
  return Choice.applied c.name (Table.ofEntries parameters)

namespace Resolution

/-- Applies a trait, named in the library reached under the alias `scope`, to a method. -/
def applyTrait (symbols : Symbols) (r : Resource.Located) (scope : Option String) (m : Method)
    (c : Choice) : Except Error Method := do
  let found ← symbols.trait scope c.name
  Merge.method (found.application (Template.Dictionary.ofMethod r m c.parameters)) m
    found.template.method

/-- Applies traits one after another. -/
def applyTraits (symbols : Symbols) (r : Resource.Located) (scope : Option String) (m : Method) :
    List Choice → Except Error Method
  | [] => .ok m
  | c :: rest => do
    let m ← applyTrait symbols r scope m c
    applyTraits symbols r scope m rest

/-- The templates of a resource type for a method. -/
def templatesFor (t : ResourceType) (m : Method) (isDeclared : Bool) : List Method :=
  (t.methods.get? m.verb).toList ++
    if isDeclared then (t.optionalMethods.get? m.verb).toList else []

/-- Applies the traits that a resource type names, with values filled in from `d`. -/
def applyNamed (symbols : Symbols) (r : Resource.Located) (scope : Option String)
    (d : Template.Dictionary) (m : Method) : List Choice → Except Error Method
  | [] => .ok m
  | c :: rest => do
    let m ← applyTrait symbols r scope m (← c.instantiate d)
    applyNamed symbols r scope d m rest

/-- Merges templates into a method one after another. -/
def applyTemplates (app : Application) (m : Method) : List Method → Except Error Method
  | [] => .ok m
  | t :: rest => do
    let m ← Merge.method app m t
    applyTemplates app m rest

/-- Applies the resource type of a resource to a method. -/
def applyResourceType (symbols : Symbols) (r : Resource.Located) (s : Symbol ResourceType)
    (parameters : Table Value) (isDeclared : Bool) (m : Method) : Except Error Method := do
  let templates := templatesFor s.template m isDeclared
  let d := Template.Dictionary.ofMethod r m parameters
  let m ← applyNamed symbols r s.aliasName d m
    (s.template.traits ++ templates.flatMap Method.traits)
  applyTemplates (s.application d) m templates

/-- A resource type that is applied, and the values given to it. -/
structure Applied where
  symbol : Symbol ResourceType
  parameters : Table Value

/-- A method with all templates applied. -/
def method (symbols : Symbols) (r : Resource.Located) (applied : Option Applied)
    (isDeclared : Bool) (m : Method) : Except Error Method := do
  let m ← applyTraits symbols r none m (r.resource.traits ++ m.traits)
  let m ← match applied with
    | none => .ok m
    | some a => applyResourceType symbols r a.symbol a.parameters isDeclared m
  symbols.checkSecurity m.securedBy
  return m

end Resolution
end Raml
