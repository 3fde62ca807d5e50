import Raml.Merge.Table
import Raml.Proofs.Table

/-!
# Lists that stand for sets

A list that stands for a set gets the items that it lacks. `union` says what becomes of the keys:
those of the list, and after them the others, each where it first comes (`map_appendMissing`). It
takes the others one by one, which is how every fact about it is proved (`union_cons_of_mem`,
`union_cons_of_notMem`).

What the loop has seen and what it has collected are two lists. That one holds the keys of the
other is what lets a list be added in two parts (`appendMissing_append`), and what makes adding it
once more change nothing (`appendMissing_again`).
-/

namespace Raml.Merge

/-! ## Ordered unions -/

section Union

variable {κ : Type} [DecidableEq κ] {own : List κ} {k : κ}

/-- Some keys, and after them those of the others that are not among them, each where it first
comes. -/
def union (own others : List κ) : List κ := own ++ (others.filter (· ∉ own)).eraseDups

@[simp]
theorem union_nil (own : List κ) : union own [] = own := List.append_nil own

theorem union_cons_of_mem (h : k ∈ own) (others : List κ) :
    union own (k :: others) = union own others := by
  rw [union, List.filter_cons_of_neg (by simpa using h), union]

theorem union_cons_of_notMem (h : k ∉ own) (others : List κ) :
    union own (k :: others) = union (own ++ [k]) others := by
  rw [union, Table.eraseDups_missing_cons h, union, List.append_assoc, List.singleton_append]

/-- A union has the members of both lists. -/
theorem mem_union {others : List κ} : k ∈ union own others ↔ k ∈ own ∨ k ∈ others := by
  rw [union, List.mem_append, List.mem_eraseDups, List.mem_filter]
  by_cases hk : k ∈ own <;> simp [hk]

/-- Two lists are joined to a third one after the other. -/
theorem union_append (own xs ys : List κ) : union own (xs ++ ys) = union (union own xs) ys := by
  induction xs generalizing own with
  | nil => rw [List.nil_append, union_nil]
  | cons x xs ih =>
    rw [List.cons_append]
    by_cases hx : x ∈ own
    · rw [union_cons_of_mem hx, union_cons_of_mem hx, ih]
    · rw [union_cons_of_notMem hx, union_cons_of_notMem hx, ih]

/-- A list without repetitions stays so. -/
theorem nodup_union (h : own.Nodup) (others : List κ) : (union own others).Nodup := by
  induction others generalizing own with
  | nil => rwa [union_nil]
  | cons k others ih =>
    by_cases hk : k ∈ own
    · rw [union_cons_of_mem hk]
      exact ih h
    · rw [union_cons_of_notMem hk]
      refine ih (List.nodup_append.mpr ⟨h, by simp, fun a ha b hb hab => hk ?_⟩)
      rwa [← List.mem_singleton.mp hb, ← hab]

end Union

/-! ## Items one after another -/

variable {α κ : Type} {like : κ → κ → Bool} {key : α → κ}

theorem appendFrom_grow {others : List α} :
    ∀ {seen : List κ} {items : List α}, items <+: appendFrom like key seen items others := by
  induction others with
  | nil => intro seen items; exact List.prefix_refl _
  | cons a others ih =>
    intro seen items
    -- what has been seen only says which items are left out
    rw [appendFrom]
    split
    · exact ih
    · exact (List.prefix_append _ _).trans ih

theorem forall_mem_appendFrom {C : α → Prop} {others : List α} (hothers : ∀ a ∈ others, C a) :
    ∀ {seen : List κ} {items : List α}, (∀ a ∈ items, C a) →
      ∀ a ∈ appendFrom like key seen items others, C a := by
  induction others with
  | nil => exact fun hitems => hitems
  | cons a others ih =>
    rw [List.forall_mem_cons] at hothers
    intro seen items hitems
    rw [appendFrom]
    split
    · exact ih hothers.2 hitems
    · exact ih hothers.2 (List.forall_mem_append.mpr
        ⟨hitems, List.forall_mem_singleton.mpr hothers.1⟩)

/-! ## Items that a list lacks -/

/-- A list may be added in two parts. -/
theorem appendMissing_append (items xs ys : List α) :
    appendMissing like key items (xs ++ ys) =
      appendMissing like key (appendMissing like key items xs) ys := by
  induction xs generalizing items with
  | nil => rfl
  | cons a xs ih =>
    unfold appendMissing at ih ⊢
    rw [List.cons_append, appendFrom, appendFrom]
    split
    · exact ih items
    · -- what has been seen are still the keys of what has been collected
      rw [← List.map_singleton, ← List.map_append]
      exact ih (items ++ [a])

section Like

variable (hlike : ∀ k l, like k l = true ↔ k = l)
include hlike

theorem any_like_iff {keys : List κ} {k : κ} :
    (keys.any fun l => like l k) = true ↔ k ∈ keys := by
  simp only [List.any_eq_true, hlike, exists_eq_right]

/-- The keys afterwards are the union of those before and of those that are added. -/
theorem map_appendMissing [DecidableEq κ] (items others : List α) :
    (appendMissing like key items others).map key = union (items.map key) (others.map key) := by
  induction others generalizing items with
  | nil => exact (union_nil _).symm
  | cons a others ih =>
    unfold appendMissing at ih ⊢
    rw [appendFrom, List.map_cons]
    by_cases ha : key a ∈ items.map key
    · rw [if_pos ((any_like_iff hlike).mpr ha), union_cons_of_mem ha, ih]
    · rw [if_neg (mt (any_like_iff hlike).mp ha), union_cons_of_notMem ha, ← List.map_singleton,
        ← List.map_append, ih]

/-- Items that are their own keys become the union. -/
theorem appendMissing_id [DecidableEq κ] (items others : List κ) :
    appendMissing like id items others = union items others := by
  have hkeys : (appendMissing like id items others).map id =
      union (items.map id) (others.map id) := map_appendMissing hlike items others
  simpa only [List.map_id] using hkeys

theorem exists_mem_appendMissing {items others : List α} {b : α} (hb : b ∈ others) :
    ∃ a ∈ appendMissing like key items others, key a = key b := by
  classical
  rw [← List.mem_map, map_appendMissing hlike]
  exact mem_union.mpr (.inr (List.mem_map_of_mem hb))

/-- Nothing is appended where every key is there. -/
theorem appendMissing_of_mem {items others : List α} (h : ∀ a ∈ others, key a ∈ items.map key) :
    appendMissing like key items others = items := by
  induction others with
  | nil => rfl
  | cons a others ih =>
    rw [List.forall_mem_cons] at h
    rw [appendMissing, appendFrom, if_pos ((any_like_iff hlike).mpr h.1)]
    exact ih h.2

/-- Nothing is appended the second time. -/
theorem appendMissing_again (items others : List α) :
    appendMissing like key (appendMissing like key items others) others =
      appendMissing like key items others :=
  appendMissing_of_mem hlike fun _ ha => List.mem_map.mpr (exists_mem_appendMissing hlike ha)

end Like

end Raml.Merge
