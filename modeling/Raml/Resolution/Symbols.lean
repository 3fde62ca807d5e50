import Raml.Merge.Entity
import Raml.Document.Api

/-!
# Symbols

What the templates of a document can be called by. The root document's own go by their names. Those
of a library go by the alias under which the root reaches it, a dot and the name; a library that
another one uses is reached under both aliases with a dot between, and also under its own alias
alone. Where two templates would go by one name, the first one has it.
-/

namespace Raml

/-- A template, and the library that declares it with the alias under which the root reaches it. -/
structure Symbol (α : Type) where
  template : α
  library : Option Library
  aliasName : Option String

namespace Symbol

variable {α : Type}

/-- The circumstances of applying the template with the given values. -/
def application (s : Symbol α) (dictionary : Template.Dictionary) : Application :=
  match s.library with
  | none => ⟨dictionary, s.aliasName, [], []⟩
  | some l =>
    ⟨dictionary, s.aliasName, l.declared.types.names, l.declared.securitySchemes.names⟩

end Symbol

/-- What the templates of a document can be called by. -/
structure Symbols where
  resourceTypes : Table (Symbol ResourceType)
  traits : Table (Symbol Trait)
  securitySchemes : Table (Symbol SecurityScheme)

namespace Symbols

variable {α : Type}

/-- The table of no symbols. -/
def empty : Symbols := ⟨[], [], []⟩

/-- A name after an alias, if there is one. -/
def qualified (aliasName name : String) : String :=
  if aliasName.isEmpty then name else aliasName ++ "." ++ name

/-- Puts a symbol under a name that nothing has yet. -/
def offer (key : String) (s : Symbol α) (t : Table (Symbol α)) : Table (Symbol α) :=
  if t.has key then t else t.set key s

/-- Adds templates under their names, after an alias. -/
def offerAll (library : Option Library) (aliasName : Option String) (keyAlias : String)
    (t : Table (Symbol α)) (templates : Table α) : Table (Symbol α) :=
  templates.foldl (fun t e => offer (qualified keyAlias e.1) ⟨e.2, library, aliasName⟩ t) t

/-- Adds all that is declared in one place. -/
def declare (s : Symbols) (d : Declarations) (library : Option Library) (aliasName : Option String)
    (keyAlias : String) : Symbols where
  resourceTypes := offerAll library aliasName keyAlias s.resourceTypes d.resourceTypes
  traits := offerAll library aliasName keyAlias s.traits d.traits
  securitySchemes := offerAll library aliasName keyAlias s.securitySchemes d.securitySchemes

/-- Adds what a library declares, also under its own alias where that is another. -/
def declareLibrary (s : Symbols) (l : Library) (aliasName own : String) : Symbols :=
  let s := s.declare l.declared (some l) (some aliasName) aliasName
  if own = aliasName then s
  else s.declare l.declared (some l) (some aliasName) (if own.isEmpty then aliasName else own)

mutual

/-- Adds a library and all those that it uses. -/
def addLibrary (s : Symbols) (aliasName own : String) : Library → Symbols
  | ⟨annotations, declared, libraries, location, usage⟩ =>
    addAll (s.declareLibrary ⟨annotations, declared, libraries, location, usage⟩ aliasName own)
      (aliasName ++ ".") libraries

/-- Adds libraries, each under what stands before its alias and the alias. -/
def addAll (s : Symbols) (before : String) : List (String × Library) → Symbols
  | [] => s
  | (own, l) :: rest => addAll (addLibrary s (before ++ own) own l) before rest

end

/-- The symbols of an API definition whose libraries are loaded. -/
def ofApi (a : Api) : Symbols := addAll (empty.declare a.declared none none "") "" a.libraries

/-! ## Looking up -/

/--
The symbol that a reference names: as it is written, or else seen from the library reached under
the alias `scope`.
-/
def find (kind : SymbolKind) (t : Table (Symbol α)) (scope : Option String) (name : String) :
    Except Error (Symbol α) :=
  let within := match scope with
    | none => none
    | some aliasName => if aliasName.isEmpty then none else t.get? (aliasName ++ "." ++ name)
  match (t.get? name).or within with
  | some s => .ok s
  | none => .error (.unresolved kind name)

/-- The resource type that a reference names. -/
def resourceType (s : Symbols) (scope : Option String) (name : String) :
    Except Error (Symbol ResourceType) :=
  find .resourceType s.resourceTypes scope name

/-- The trait that a reference names. -/
def trait (s : Symbols) (scope : Option String) (name : String) : Except Error (Symbol Trait) :=
  find .trait s.traits scope name

/-- The security scheme that a reference names. -/
def securityScheme (s : Symbols) (scope : Option String) (name : String) :
    Except Error (Symbol SecurityScheme) :=
  find .securityScheme s.securitySchemes scope name

/-- Fails on the first reference that names no security scheme; null names none and needs none. -/
def checkSecurity (s : Symbols) : List (Option Choice) → Except Error Unit
  | [] => .ok ()
  | none :: rest => s.checkSecurity rest
  | some c :: rest => do
    let _ ← s.securityScheme none c.name
    s.checkSecurity rest

end Symbols
end Raml
