import Raml.Document.Api
import Raml.Load.Document

/-!
# Reading libraries

The libraries that a document uses are read, then those that these use in turn, each reference
from the folder of the document it stands in. A `Shelf` keeps every library once it is complete, so
that a location is read once however many documents use it. A library that uses itself, directly or
through others, is refused.
-/

namespace Raml

/-! ## From entries to entities -/

/-- The library that entries describe. -/
def Library.build (source : String) (entries : List (Value × Value)) : Except Error Library :=
  match Library.read (.map entries) with
  | .good l => .ok { l with location := source }
  | .bad ps => .error (.ofProblems source ps)

/-- The API definition that entries describe. -/
def Api.build (source version : String) (entries : List (Value × Value)) : Except Error Api :=
  match Api.read (.map entries) with
  | .good a => .ok { a with location := source, ramlVersion := version }
  | .bad ps => .error (.ofProblems source ps)

/-! ## The shelf -/

/-- The libraries read so far, by location, and what happened on the way. -/
structure Shelf where
  journal : Journal
  libraries : Table Library
  deriving Inhabited

namespace Shelf

/-- The shelf with nothing on it. -/
def empty : Shelf := ⟨.empty, []⟩

end Shelf

/-- A step of reading libraries. -/
abbrev Shelving := EStateM Error Shelf

/-- A step of reading documents, as one of reading libraries. -/
def Shelving.ofLoad {α : Type} (step : Load α) : Shelving α := fun s =>
  match step s.journal with
  | .ok a j => .ok a { s with journal := j }
  | .error e j => .error e { s with journal := j }

/-- A step of reading libraries that starts from an empty shelf, as one of reading documents. -/
def Shelving.toLoad {α : Type} (step : Shelving α) : Load α := fun j =>
  match step ⟨j, []⟩ with
  | .ok a s => .ok a s.journal
  | .error e s => .error e s.journal

namespace Library

/-- Reads the libraries that references name, with `load` for each location. -/
def loadUses (load : String → Shelving Library) (base : String) (libraries : Table Library) :
    Table String → Shelving (Table Library)
  | [] => pure libraries
  | (aliasName, reference) :: rest => do
    let location ← ofExcept (Location.join base reference)
    let library ← load location
    loadUses load base (libraries.set aliasName library) rest

/-- Reads the library at a location, with `load` for those that it uses. -/
def loadNew (a : Access) (load : List String → String → Shelving Library) (chain : List String)
    (location : String) : Shelving Library := do
  let draft ← Shelving.ofLoad (a.loadDocument [] location)
  let library ← ofExcept (Library.build location draft.entries)
  let folder ← ofExcept (Location.folder location)
  let libraries ←
    loadUses (load (chain ++ [location])) folder library.libraries library.declared.uses
  let complete := { library with libraries }
  modify fun s => { s with libraries := s.libraries.set location complete }
  return complete

/--
The library at a location, from the shelf or newly read, with at most `depth` inside one another;
`chain` holds the locations of the documents that use it, the outermost first.
-/
def load (a : Access) : Nat → List String → String → Shelving Library
  | 0, _, _ => throw .tooDeep
  | depth + 1, chain, location => do
    if chain.contains location then throw (.cyclic (chain ++ [location]))
    match (← get).libraries.get? location with
    | some library => return library
    | none => loadNew a (load a depth) chain location

end Library

namespace Access

/-- The library at a location. -/
def library (a : Access) (chain : List String) (location : String) : Shelving Library :=
  Library.load a (a.store.depth + 1) chain location

/-- An API definition with the libraries that it uses. -/
def libraries (a : Access) (chain : List String) (base : String) (api : Api) : Shelving Api := do
  let libraries ← Library.loadUses (a.library chain) base api.libraries api.declared.uses
  return { api with libraries }

end Access
end Raml
