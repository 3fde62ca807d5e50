import Raml.Merge.Application

/-!
# Merging tables and lists

A table of a template is merged into that of a child entry by entry: an entry that the child lacks
is added, one that it has is merged with its like. A key of the template that ends in a question
mark is optional and adds nothing; with a backslash before it the question mark belongs to the
name. A list that stands for a set gets the items it lacks, in order.
-/

namespace Raml.Merge

/-- The key that an entry of a template goes to, if it goes anywhere. -/
def targetOf {α : Type} (children : Table α) (key : String) : Option String :=
  if Text.endsWith "\\?" key then some (Text.dropLast 2 key ++ "?")
  else if Text.endsWith "?" key then
    let base := Text.dropLast 1 key
    if children.has base then some base
    else if children.has key then some key
    else none
  else some key

/-- The key that an entry of a template under a raw key goes to, if it goes anywhere. -/
def target {α : Type} (app : Application) (children : Table α) (raw : String) :
    Except Error (Option String) := do
  return targetOf children (← app.name raw)

/-- Merges the entries of a template into those of a child, one after another. -/
def table {α : Type} (app : Application) (merge : α → α → Except Error α) (create : String → α)
    (children : Table α) : Table α → Except Error (Table α)
  | [] => .ok children
  | (raw, parent) :: rest => do
    match ← target app children raw with
    | none => table app merge create children rest
    | some key =>
      let entry := (children.get? key).getD (create key)
      let merged ← merge entry parent
      table app merge create (children.set key merged) rest

/-- Adds the entries of a template that a child lacks, each made by `make`. -/
def additions {α : Type} (app : Application) (make : α → Except Error α)
    (children : Table α) : Table α → Except Error (Table α)
  | [] => .ok children
  | (raw, parent) :: rest => do
    match ← target app children raw with
    | none => additions app make children rest
    | some key =>
      if children.has key then additions app make children rest
      else
        let a ← make parent
        additions app make (children.set key a) rest

/-- Adds the entries of a template under keys that a child lacks, texts filled in. -/
def values (app : Application) (children : Table Value) : Table Value → Except Error (Table Value)
  | [] => .ok children
  | (key, v) :: rest => do
    if children.has key then values app children rest
    else
      let v ← app.value v
      values app (children.set key v) rest

/-- Adds the items whose keys are not among those seen yet. -/
def appendFrom {α κ : Type} (like : κ → κ → Bool) (key : α → κ) (seen : List κ) (items : List α) :
    List α → List α
  | [] => items
  | a :: rest =>
    if seen.any fun k => like k (key a) then appendFrom like key seen items rest
    else appendFrom like key (seen ++ [key a]) (items ++ [a]) rest

/-- Adds the items whose keys a list lacks. -/
def appendMissing {α κ : Type} (like : κ → κ → Bool) (key : α → κ) (items others : List α) :
    List α :=
  appendFrom like key (items.map key) items others

end Raml.Merge
