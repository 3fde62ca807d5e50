import Raml.Document.Api

/-!
# The members of a node

A library holds libraries and a resource holds resources. Both stand in the mapping under a name,
and resources stand under paths, too. Whatever goes through them, to read them or to list what is in
them, does so in the same way: it finds the first entry under the name and takes what the entries of
that mapping give (`GathersMembers`).

Members are smaller than the node that they are in, so what holds of a node if it holds of its
members holds of every node (`Value.membersInduction`).
-/

namespace Raml

namespace Value

/-- The entries of a mapping. -/
def entries : Value → List (Value × Value)
  | .map es => es
  | _ => []

/-- The entries of the first mapping under a name. -/
def membersUnder (name : String) (es : List (Value × Value)) : List (Value × Value) :=
  ((es.find? fun e => e.1.key == name).map fun e => e.2.entries).getD []

/-- What stands under a field was an entry of a mapping in that field. -/
theorem of_mem_membersUnder {name : String} {es : List (Value × Value)} {c : Value × Value}
    (h : c ∈ membersUnder name es) : ∃ e ∈ es, e.1.key = name ∧ c ∈ e.2.entries := by
  cases hfind : es.find? fun e => e.1.key == name with
  | none =>
    rw [membersUnder, hfind] at h
    cases h
  | some e =>
    rw [membersUnder, hfind] at h
    exact ⟨e, List.mem_of_find?_eq_some hfind, by simpa using List.find?_some hfind, h⟩

/-- A member is smaller than the value that it stands in. -/
theorem sizeOf_lt_of_mem_entries {v : Value} {e : Value × Value} (h : e ∈ v.entries) :
    sizeOf e.2 < sizeOf v := by
  cases v with
  | map es =>
    have hentry : sizeOf e < sizeOf es := List.sizeOf_lt_of_mem h
    obtain ⟨k, w⟩ := e
    simp only [Prod.mk.sizeOf_spec, map.sizeOf_spec] at hentry ⊢
    omega
  | _ => cases h

/-- What holds of a node whenever it holds of the values of its entries, and of the members of the
mappings among them, holds of every node. -/
@[elab_as_elim]
theorem membersInduction {P : Value → Prop}
    (step : ∀ v, (∀ e ∈ v.entries, P e.2) → (∀ name, ∀ c ∈ membersUnder name v.entries, P c.2) →
      P v) (v : Value) : P v := by
  induction hsize : sizeOf v using Nat.strongRecOn generalizing v with
  | ind n ih =>
    subst hsize
    refine step v (fun e he => ih _ (sizeOf_lt_of_mem_entries he) _ rfl) fun name c hc => ?_
    obtain ⟨e, he, -, hc⟩ := of_mem_membersUnder hc
    have hlt := Nat.lt_trans (sizeOf_lt_of_mem_entries hc) (sizeOf_lt_of_mem_entries he)
    exact ih _ hlt _ rfl

end Value

/-! ## Going through members -/

/-- Whether three functions, each defined by the next, gather what the members under a name give. -/
structure GathersMembers {β : Type} (name : String) (give : Value × Value → List β)
    (listed : List (Value × Value) → List β) (inMapping : Value → List β)
    (inEntries : List (Value × Value) → List β) : Prop where
  listed_nil : listed [] = []
  listed_cons : ∀ k v rest,
    listed ((k, v) :: rest) = if k.key == name then inMapping v else listed rest
  mapping : ∀ v, inMapping v = inEntries v.entries
  entries_nil : inEntries [] = []
  entries_cons : ∀ e rest, inEntries (e :: rest) = give e ++ inEntries rest

namespace GathersMembers

variable {α β : Type} {name : String} {listed : List (Value × Value) → List β}
  {inMapping : Value → List β} {inEntries : List (Value × Value) → List β}

section Any

variable {give : Value × Value → List β} (h : GathersMembers name give listed inMapping inEntries)

include h

theorem entries_eq (es : List (Value × Value)) : inEntries es = es.flatMap give := by
  induction es with
  | nil => exact h.entries_nil
  | cons e es ih => rw [h.entries_cons, ih, List.flatMap_cons]

theorem listed_eq (es : List (Value × Value)) :
    listed es = (Value.membersUnder name es).flatMap give := by
  induction es with
  | nil => exact h.listed_nil
  | cons e es ih =>
    rw [h.listed_cons, Value.membersUnder, List.find?_cons]
    by_cases hkey : (e.1.key == name) = true
    · rw [if_pos hkey, hkey, h.mapping, h.entries_eq]
      rfl
    · simp only [hkey, ih]
      rfl

/-- What holds of everything that is listed holds of what each member gives. -/
theorem forall_mem_listed {P : β → Prop} {es : List (Value × Value)} :
    (∀ b ∈ listed es, P b) ↔ ∀ c ∈ Value.membersUnder name es, ∀ b ∈ give c, P b := by
  rw [h.listed_eq, List.forall_mem_flatMap]

end Any

/-! Readers give what they read under the key at which it stands. -/

section Read

variable {read : Value → α} {listed : List (Value × Value) → List (Value × α)}
  {inMapping : Value → List (Value × α)} {inEntries : List (Value × Value) → List (Value × α)}
  (h : GathersMembers name (fun c => [(c.1, read c.2)]) listed inMapping inEntries)

include h

/-- The entries of a mapping are read one by one. -/
theorem entries_eq_map (es : List (Value × Value)) :
    inEntries es = es.map fun c => (c.1, read c.2) := by
  rw [h.entries_eq, List.map_eq_flatMap]

theorem forall_mem_read {P : Value × α → Prop} {es : List (Value × Value)} :
    (∀ b ∈ listed es, P b) ↔ ∀ c ∈ Value.membersUnder name es, P (c.1, read c.2) := by
  simp only [h.forall_mem_listed, List.forall_mem_singleton]

end Read

end GathersMembers

namespace Library

theorem gathers_read : GathersMembers "libraries" (fun c => [(c.1, read c.2)]) listed readMapping
    readEntries :=
  ⟨rfl, fun _ _ _ => rfl, fun v => by cases v <;> rfl, rfl, fun _ _ => rfl⟩

end Library

namespace Resource

theorem gathers_read : GathersMembers "nested" (fun c => [(c.1, read c.2)]) listed readMapping
    readEntries :=
  ⟨rfl, fun _ _ _ => rfl, fun v => by cases v <;> rfl, rfl, fun _ _ => rfl⟩

/-- Only entries whose key is a path are branches. -/
theorem branches_eq (es : List (Value × Value)) : branches es =
    (es.filter fun e => isPath e.1.key).map fun e =>
      (.str e.1.key, if e.2.isTruthy then read e.2 else read .null) := by
  induction es with
  | nil => rfl
  | cons e es ih =>
    rw [branches, List.filter_cons]
    split
    · rw [ih]
      rfl
    · exact ih

/-- What is read under a path goes by the text of its key; where nothing stands, that is read. -/
theorem forall_mem_branches {P : Value × Checked Resource → Prop} {es : List (Value × Value)} :
    (∀ b ∈ branches es, P b) ↔ ∀ e ∈ es, isPath e.1.key = true →
      P (.str e.1.key, if e.2.isTruthy then read e.2 else read .null) := by
  rw [branches_eq, List.forall_mem_map]
  simp only [List.mem_filter, and_imp]

end Resource

end Raml
