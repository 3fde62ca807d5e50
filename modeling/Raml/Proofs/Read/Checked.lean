import Mathlib.Data.List.Nodup
import Raml.Document.Declarations
import Raml.Proofs.Table

/-!
# What has been read

A good entity was read from good fields. So what holds of every field that is read holds of the
entity: here, that the names of a table are distinct, which is what a mapping of a document gives.
-/

namespace Raml

namespace Checked

variable {α β : Type}

theorem map_eq_good {f : α → β} {x : Checked α} {b : β} :
    f <$> x = .good b ↔ ∃ a, x = .good a ∧ f a = b := by
  cases x <;> simp [Functor.map, Checked.map]

/-- A function and what it is applied to are read if both are. -/
theorem seq_eq_good {f : Checked (α → β)} {x : Checked α} {b : β} :
    f <*> x = .good b ↔ ∃ g a, f = .good g ∧ x = .good a ∧ g a = b := by
  cases f <;> cases x <;> simp [Seq.seq, apply]

/-- What holds of every result of the functions that may have been read holds of the result. -/
@[elab_as_elim]
theorem of_seq_good {P : β → Prop} {f : Checked (α → β)} {x : Checked α} {b : β}
    (h : f <*> x = .good b) (hf : ∀ g, f = .good g → ∀ a, P (g a)) : P b := by
  obtain ⟨g, a, hg, -, rfl⟩ := seq_eq_good.mp h
  exact hf g hg a

theorem under_eq_good {part : String} {x : Checked α} {a : α} :
    x.under part = .good a ↔ x = .good a := by
  cases x <;> simp [under]

theorem ofExcept_eq_good {x : Except Mismatch α} {a : α} : ofExcept x = .good a ↔ x = .ok a := by
  cases x <;> simp [ofExcept, fail]

theorem toExcept_eq_ok {x : Checked α} {a : α} : x.toExcept = .ok a ↔ x = .good a := by
  cases x <;> simp [toExcept]

end Checked

namespace Table

variable {α : Type}

theorem distinct_set {name : String} {a : α} {t : Table α} (h : t.Distinct) :
    (t.set name a).Distinct := by
  rw [Distinct, names_set]
  split
  · exact h
  · rename_i hname
    have hnew : name ∉ t.names := fun hmem => hname (has_iff_mem_names.mpr hmem)
    rw [← List.concat_eq_append]
    exact List.Nodup.concat hnew h

/-- A table that is made from entries has no key twice. -/
theorem distinct_ofEntries (es : List (String × α)) : (ofEntries es).Distinct := by
  have hfold : ∀ (es : List (String × α)) (t : Table α), t.Distinct →
      (es.foldl (fun t e => t.set e.1 e.2) t).Distinct := by
    intro es
    induction es with
    | nil => exact fun t h => h
    | cons e es ih => exact fun t h => ih _ (distinct_set h)
  exact hfold es [] List.nodup_nil

end Table

/-- A table that was read has no key twice. -/
theorem Reader.distinct_of_table {α : Type} {read : Reader α} {v : Value} {t : Table α}
    (h : Reader.table read v = .good t) : t.Distinct := by
  cases v with
  | map es =>
    obtain ⟨entries, -, rfl⟩ := Checked.map_eq_good.mp h
    exact Table.distinct_ofEntries entries
  | _ => cases h

theorem Fields.distinct_of_collection {α : Type} {read : Reader α} {names : List String}
    {f : Fields} {t : Table α} (h : f.collection names [] (Reader.table read) = .good t) :
    t.Distinct := by
  rw [Fields.collection] at h
  split at h
  · exact Reader.distinct_of_table (Checked.under_eq_good.mp h)
  · cases h
    exact List.nodup_nil

theorem Declarations.distinct_uses {f : Fields} {d : Declarations}
    (h : Declarations.ofFields f = .good d) : d.uses.Distinct := by
  -- the fields are taken off from the last one
  obtain ⟨_, uses, hschemes, huses, rfl⟩ := Checked.seq_eq_good.mp h
  obtain ⟨_, _, hannotationTypes, -, rfl⟩ := Checked.seq_eq_good.mp hschemes
  obtain ⟨_, _, hresourceTypes, -, rfl⟩ := Checked.seq_eq_good.mp hannotationTypes
  obtain ⟨_, _, htraits, -, rfl⟩ := Checked.seq_eq_good.mp hresourceTypes
  obtain ⟨_, _, htypes, -, rfl⟩ := Checked.seq_eq_good.mp htraits
  obtain ⟨_, -, rfl⟩ := Checked.map_eq_good.mp htypes
  exact Fields.distinct_of_collection huses

namespace Library

theorem distinct_uses_ofFields {libraries : List (Value × Checked Library)} {f : Fields}
    {l : Library} (h : ofFields libraries f = .good l) : l.declared.uses.Distinct := by
  obtain ⟨_, _, hlocation, -, rfl⟩ := Checked.seq_eq_good.mp h
  obtain ⟨_, _, hnested, -, rfl⟩ := Checked.seq_eq_good.mp hlocation
  obtain ⟨_, _, hrest, -, rfl⟩ := Checked.seq_eq_good.mp hnested
  obtain ⟨_, _, hannotations, hdeclared, rfl⟩ := Checked.seq_eq_good.mp hrest
  obtain ⟨_, -, rfl⟩ := Checked.map_eq_good.mp hannotations
  exact Declarations.distinct_uses hdeclared

/-- A library that was read has no alias twice. -/
theorem distinct_uses_ofEntries {libraries : List (Value × Checked Library)}
    {es : List (Value × Value)} {l : Library} (h : (form libraries).ofEntries es = .good l) :
    l.declared.uses.Distinct := by
  rw [EntityForm.ofEntries] at h
  split at h
  · exact distinct_uses_ofFields h
  · cases h

/-- The aliases in a library that was read are distinct. -/
theorem distinct_uses {v : Value} {l : Library} (h : Library.read v = .good l) :
    l.declared.uses.Distinct := by
  cases v with
  | null =>
    rw [read] at h
    exact distinct_uses_ofEntries h
  | map es =>
    rw [read] at h
    exact distinct_uses_ofEntries h
  | _ => simp [read, notLibrary, Checked.fail] at h

end Library
end Raml
