/-!
# Tables

A table is a list of entries under names, in the order in which the names first came. `set`
replaces the entry of a name where it stands or puts a new one at the end, so `names_set` says
that the names of a table only ever grow at the end.
-/

namespace Raml

/-- Entries under names. -/
abbrev Table (α : Type) := List (String × α)

namespace Table

variable {α β : Type}

/-- The names in order. -/
def names (t : Table α) : List String := t.map Prod.fst

/-- The entry under a name. -/
def get? (name : String) : Table α → Option α
  | [] => none
  | (n, a) :: t => if n = name then some a else get? name t

/-- Whether there is an entry under a name. -/
def has (name : String) (t : Table α) : Bool := (t.get? name).isSome

/-- Puts an entry under a name, in place of the one there or after all others. -/
def set (name : String) (a : α) : Table α → Table α
  | [] => [(name, a)]
  | (n, b) :: t => if n = name then (n, a) :: t else (n, b) :: set name a t

/-- The table without the entry under a name. -/
def erase (name : String) (t : Table α) : Table α := t.filter fun e => e.1 != name

/-- One entry for each name: the last one given, at the place of the first. -/
def ofEntries (entries : List (String × α)) : Table α :=
  entries.foldl (fun t e => t.set e.1 e.2) []

/-- The table with each entry changed. -/
def mapValues (f : α → β) (t : Table α) : Table β := t.map fun e => (e.1, f e.2)

/-- The table with each entry changed by a step that can fail; the first failure wins. -/
def mapValuesM {ε : Type} (f : α → Except ε β) : Table α → Except ε (Table β)
  | [] => .ok []
  | (n, a) :: t => do
    let b ← f a
    let rest ← mapValuesM f t
    return (n, b) :: rest

/-- Whether every entry has a name of its own. -/
def Distinct (t : Table α) : Prop := t.names.Nodup

theorem has_iff_mem_names {name : String} {t : Table α} :
    t.has name = true ↔ name ∈ t.names := by
  induction t with
  | nil => simp [has, get?, names]
  | cons e t ih =>
    obtain ⟨n, a⟩ := e
    by_cases h : n = name
    · simp [has, get?, names, h]
    · have hs : name ≠ n := fun e => h e.symm
      simp only [has, names] at ih
      simp [has, get?, names, h, hs, ih]

theorem get?_set_self (name : String) (a : α) (t : Table α) :
    (t.set name a).get? name = some a := by
  induction t with
  | nil => simp [set, get?]
  | cons e t ih =>
    obtain ⟨n, b⟩ := e
    by_cases h : n = name <;> simp [set, get?, h, ih]

theorem get?_set_of_ne {name other : String} (h : other ≠ name) (a : α) (t : Table α) :
    (t.set name a).get? other = t.get? other := by
  induction t with
  | nil => simp [set, get?, Ne.symm h]
  | cons e t ih =>
    obtain ⟨n, b⟩ := e
    by_cases hn : n = name
    · subst hn; simp [set, get?, Ne.symm h]
    · by_cases ho : n = other
      · subst ho; simp [set, get?, hn]
      · simp [set, get?, hn, ho, ih]

theorem names_set (name : String) (a : α) (t : Table α) :
    (t.set name a).names = if t.has name then t.names else t.names ++ [name] := by
  induction t with
  | nil => simp [set, names, has, get?]
  | cons e t ih =>
    obtain ⟨n, b⟩ := e
    by_cases h : n = name
    · simp [set, names, has, get?, h]
    · simp only [names, has] at ih
      simp only [set, h, if_false, names, List.map_cons, has, get?, ih]
      split <;> simp_all

end Table
end Raml
