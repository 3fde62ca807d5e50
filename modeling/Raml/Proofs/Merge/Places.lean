import Raml.Proofs.Merge.Refilled

/-!
# The places of the entries of a template

The entries of a mapping of a template go one after another, and what a later one adds could be what
an earlier, optional one would have been merged with. `Apart` rules that out: each key may lead to a
few `places`, and no two keys share one. Then what a merge leaves at the place of an entry is still
there in the end (`settled_of_table`), and the entry finds it the second time (`table_again`).
-/

namespace Raml.Merge

variable {app : Application}

/-! ## Places -/

/-- The keys that an entry of a template may go to. -/
def places (key : String) : List String :=
  if Text.endsWith "\\?" key then [Text.dropLast 2 key ++ "?"]
  else if Text.endsWith "?" key then [Text.dropLast 1 key, key]
  else [key]

/-- A key with an ending is what stands before the ending, and the ending. -/
theorem eq_append_of_endsWith {tail key : String} (h : Text.endsWith tail key = true) :
    ∃ front, key = String.ofList (front ++ tail.toList) ∧
      Text.dropLast tail.toList.length key = String.ofList front := by
  rw [Text.endsWith, List.isSuffixOf_iff_suffix] at h
  obtain ⟨front, hfront⟩ := h
  have hkey : key = String.ofList (front ++ tail.toList) := by rw [hfront, String.ofList_toList]
  refine ⟨front, hkey, ?_⟩
  unfold Text.dropLast
  rw [← hfront, List.length_append, Nat.add_sub_cancel_right, List.take_left]

theorem endsWith_ofList (tail : String) (front : List Char) :
    Text.endsWith tail (String.ofList (front ++ tail.toList)) = true := by
  rw [String.ofList_append, String.ofList_toList]
  exact endsWith_append (String.ofList front) tail

theorem dropLast_ne {key : String} (h : Text.endsWith "?" key = true) :
    Text.dropLast 1 key ≠ key := by
  intro hsame
  rw [Text.endsWith, List.isSuffixOf_iff_suffix] at h
  have hlength : 1 ≤ key.toList.length := h.length_le
  have hchars := congrArg (fun s => s.toList.length) hsame
  simp only [Text.dropLast, String.toList_ofList, List.length_take] at hchars
  omega

/-- An entry goes to the one place of its key, or its key is optional: then it goes to the first
of its two places that is taken. -/
theorem targetOf_cases (key : String) :
    (∃ place, places key = [place] ∧
      ∀ {α : Type} (t : Table α), targetOf t key = some place) ∨
    (∃ base, base ≠ key ∧ places key = [base, key] ∧ ∀ {α : Type} (t : Table α),
      targetOf t key =
        if t.has base then some base else if t.has key then some key else none) := by
  unfold targetOf places
  by_cases hescaped : Text.endsWith "\\?" key = true
  · refine .inl ⟨_, if_pos hescaped, ?_⟩
    intro α t
    rw [if_pos hescaped]
  · rw [if_neg hescaped]
    by_cases hmark : Text.endsWith "?" key = true
    · refine .inr ⟨_, dropLast_ne hmark, if_pos hmark, ?_⟩
      intro α t
      rw [if_neg hescaped, if_pos hmark]
    · refine .inl ⟨_, if_neg hmark, ?_⟩
      intro α t
      rw [if_neg hescaped, if_neg hmark]

section Target

variable {α : Type} {t t' : Table α} {key place : String}

/-- A key goes to one of its places. -/
theorem mem_places_of_targetOf (h : targetOf t key = some place) : place ∈ places key := by
  rcases targetOf_cases key with ⟨only, hplaces, htarget⟩ | ⟨base, _, hplaces, htarget⟩
  · rw [htarget] at h
    rw [hplaces, Option.some.inj h]
    exact List.mem_singleton_self place
  · rw [htarget] at h
    rw [hplaces]
    split at h
    · rw [Option.some.inj h]
      exact List.mem_cons_self ..
    · split at h
      · rw [Option.some.inj h]
        exact List.mem_cons_of_mem _ (List.mem_singleton_self place)
      · cases h

/-- Where an entry goes depends on which of its places are taken. -/
theorem targetOf_congr (h : ∀ place ∈ places key, t.has place = t'.has place) :
    targetOf t key = targetOf t' key := by
  rcases targetOf_cases key with ⟨only, _, htarget⟩ | ⟨base, _, hplaces, htarget⟩
  · rw [htarget, htarget]
  · rw [hplaces] at h
    have hbase : t.has base = t'.has base := h base (List.mem_cons_self ..)
    have hkey : t.has key = t'.has key :=
      h key (List.mem_cons_of_mem _ (List.mem_singleton_self key))
    rw [htarget, htarget, hbase, hkey]

/-- An entry that has gone somewhere would go there again. -/
theorem targetOf_set (a : α) (h : targetOf t key = some place) :
    targetOf (t.set place a) key = some place := by
  rcases targetOf_cases key with ⟨only, _, htarget⟩ | ⟨base, hne, _, htarget⟩
  · rw [htarget] at h ⊢
    exact h
  · rw [htarget] at h ⊢
    split at h
    · obtain rfl : base = place := Option.some.inj h
      rw [if_pos (has_set base a t)]
    · rename_i hbase
      split at h
      · obtain rfl : key = place := Option.some.inj h
        -- the name without the mark is another one, and still not there
        have hother : ¬(t.set key a).has base = true := by
          rw [Table.has, Table.get?_set_of_ne hne]
          exact hbase
        rw [if_neg hother, if_pos (has_set key a t)]
      · cases h

/-- An entry goes to a key that is there, or to one that does not depend on what is there. -/
theorem has_or_targetOf_eq (h : targetOf t key = some place) :
    t.has place = true ∨ ∀ t' : Table α, targetOf t' key = some place := by
  rcases targetOf_cases key with ⟨only, _, htarget⟩ | ⟨base, _, _, htarget⟩
  · rw [htarget] at h
    exact .inr fun t' => (htarget t').trans h
  · rw [htarget] at h
    split at h
    · rename_i hbase
      exact .inl (Option.some.inj h ▸ hbase)
    · split at h
      · rename_i hkey
        exact .inl (Option.some.inj h ▸ hkey)
      · cases h

end Target

/-! ## Tables -/

section Tables

variable {α : Type}

/-- The entries of a template that are all there already add nothing. -/
theorem additions_of_has {make : α → Except Error α} {c p : Table α}
    (h : ∀ e ∈ p, ∃ key, app.name e.1 = .ok key ∧
      ∀ place, targetOf c key = some place → c.has place = true) :
    additions app make c p = .ok c := by
  induction p with
  | nil => rfl
  | cons e p ih =>
    obtain ⟨raw, parent⟩ := e
    rw [List.forall_mem_cons] at h
    obtain ⟨⟨key, hkey, hplace⟩, h⟩ := h
    exact additions_cons_eq_ok.mpr ⟨key, hkey, .inl ⟨hplace, ih h⟩⟩

/-- Whatever the template has, the table has after the merge, wherever it goes. -/
theorem has_of_additions {make : α → Except Error α} {c p r : Table α}
    (h : additions app make c p = .ok r) :
    ∀ e ∈ p, ∃ key, app.name e.1 = .ok key ∧
      ∀ place, targetOf r key = some place → r.has place = true := by
  induction p generalizing c with
  | nil => exact List.forall_mem_nil _
  | cons e p ih =>
    obtain ⟨raw, parent⟩ := e
    obtain ⟨key, hkey, h⟩ := additions_cons_eq_ok.mp h
    -- only a key that is always gone to may be missing from the result, and that was added
    have hsuffices : (∀ place, (∀ t : Table α, targetOf t key = some place) → r.has place = true) →
        ∃ key, app.name raw = .ok key ∧
          ∀ place, targetOf r key = some place → r.has place = true := by
      intro hadded
      refine ⟨key, hkey, fun place hplace => ?_⟩
      rcases has_or_targetOf_eq hplace with hthere | hfixed
      · exact hthere
      · exact hadded place hfixed
    rcases h with ⟨hthere, h⟩ | ⟨place, a, hplace, -, -, h⟩
    · refine List.forall_mem_cons.mpr ⟨hsuffices fun fixed hfixed => ?_, ih h⟩
      exact has_of_grow (additions_grow h) (hthere fixed (hfixed c))
    · refine List.forall_mem_cons.mpr ⟨hsuffices fun fixed hfixed => ?_, ih h⟩
      obtain rfl : fixed = place := Option.some.inj ((hfixed c).symm.trans hplace)
      exact has_of_grow (additions_grow h) (has_set fixed a c)

/-- Properties that were added are not added again. -/
theorem properties_again {c p r : Table Shape} (h : properties app c p = .ok r) :
    properties app r p = .ok r :=
  additions_of_has (has_of_additions h)

/-- Putting the entry of a name in its own place changes nothing. -/
theorem set_of_get? {key : String} {a : α} {t : Table α} (h : t.get? key = some a) :
    t.set key a = t := by
  induction t with
  | nil => cases h
  | cons e t ih =>
    obtain ⟨n, b⟩ := e
    rw [Table.get?] at h
    by_cases hn : n = key
    · rw [if_pos hn] at h
      rw [Table.set, if_pos hn, Option.some.inj h]
    · rw [if_neg hn] at h
      rw [Table.set, if_neg hn, ih h]

end Tables

/-- The keys that an entry of a template under a raw key may go to. -/
def placesOf (app : Application) (raw : String) : List String :=
  match app.name raw with
  | .ok key => places key
  | .error _ => []

theorem placesOf_of_name {raw key : String} (h : app.name raw = .ok key) :
    placesOf app raw = places key := by
  unfold placesOf
  rw [h]

/-- Whether the entries of a template under some keys get into the way of none of the others. -/
def Apart (app : Application) (keys : List String) : Prop :=
  keys.Pairwise fun raw other => ∀ place ∈ placesOf app raw, place ∉ placesOf app other

instance (app : Application) (keys : List String) : Decidable (Apart app keys) :=
  inferInstanceAs (Decidable (List.Pairwise _ keys))

section Tables

variable {α : Type} {merge : α → α → Except Error α} {create : String → α}

/-- A merge leaves alone what none of the entries may go to. -/
theorem get?_of_table {c p r : Table α} {place : String}
    (h : table app merge create c p = .ok r) (hplace : ∀ e ∈ p, place ∉ placesOf app e.1) :
    r.get? place = c.get? place := by
  induction p generalizing c with
  | nil => rw [Except.ok.inj h]
  | cons e p ih =>
    obtain ⟨raw, parent⟩ := e
    rw [List.forall_mem_cons] at hplace
    obtain ⟨key, hkey, ⟨-, h⟩ | ⟨other, new, hother, -, h⟩⟩ := table_cons_eq_ok.mp h
    · exact ih h hplace.2
    · have hne : place ≠ other := by
        rintro rfl
        rw [placesOf_of_name hkey] at hplace
        exact hplace.1 (mem_places_of_targetOf hother)
      rw [ih h hplace.2, Table.get?_set_of_ne hne]

/-- An entry of a template is settled in a table where merging it changes nothing. -/
def Settled (app : Application) (merge : α → α → Except Error α) (t : Table α)
    (e : String × α) : Prop :=
  ∃ key, app.name e.1 = .ok key ∧
    ∀ place, targetOf t key = some place → ∃ a, t.get? place = some a ∧ merge a e.2 = .ok a

/-- A table that is settled in every entry of the template is not changed by it. -/
theorem table_of_settled {t p : Table α} (h : ∀ e ∈ p, Settled app merge t e) :
    table app merge create t p = .ok t := by
  induction p with
  | nil => rfl
  | cons e p ih =>
    obtain ⟨raw, parent⟩ := e
    rw [List.forall_mem_cons] at h
    obtain ⟨⟨key, hkey, hplace⟩, h⟩ := h
    refine table_cons_eq_ok.mpr ⟨key, hkey, ?_⟩
    cases htarget : targetOf t key with
    | none => exact .inl ⟨rfl, ih h⟩
    | some place =>
      obtain ⟨a, ha, hmerge⟩ := hplace place htarget
      refine .inr ⟨place, a, rfl, by rw [ha, Option.getD_some, hmerge], ?_⟩
      rw [set_of_get? ha]
      exact ih h

/-- An entry goes where it went if none of the others goes there. -/
theorem targetOf_of_table {c p r : Table α} {key : String}
    (h : table app merge create c p = .ok r)
    (hothers : ∀ place ∈ places key, ∀ e ∈ p, place ∉ placesOf app e.1) :
    targetOf r key = targetOf c key := by
  refine targetOf_congr fun place hplace => ?_
  rw [Table.has, get?_of_table h (hothers place hplace)]
  rfl

/-- **A merge settles its entries.** What an entry is merged into must be such that merging once
more changes nothing; only the places of the entry need to be looked at, since no other entry of
the template goes there. -/
theorem settled_of_table {c p r : Table α}
    (hmerge : ∀ e ∈ p, ∀ place ∈ placesOf app e.1, ∀ new,
      merge ((c.get? place).getD (create place)) e.2 = .ok new → merge new e.2 = .ok new)
    (hapart : Apart app p.names) (h : table app merge create c p = .ok r) :
    ∀ e ∈ p, Settled app merge r e := by
  -- entries that come later go elsewhere, so what this one was merged into stays
  induction p generalizing c with
  | nil => exact List.forall_mem_nil _
  | cons e p ih =>
    obtain ⟨raw, parent⟩ := e
    rw [List.forall_mem_cons] at hmerge
    have hothers : ∀ place ∈ placesOf app raw, ∀ e ∈ p, place ∉ placesOf app e.1 :=
      fun place hplace e he =>
        (List.pairwise_cons.mp hapart).1 e.1 (List.mem_map_of_mem he) place hplace
    have hrest : Apart app (Table.names p) := (List.pairwise_cons.mp hapart).2
    obtain ⟨key, hkey, hstep⟩ := table_cons_eq_ok.mp h
    rw [placesOf_of_name hkey] at hothers hmerge
    rcases hstep with ⟨hnone, h⟩ | ⟨place, new, hplace, hnew, h⟩
    · -- an optional entry that finds nothing finds nothing in the end
      refine List.forall_mem_cons.mpr ⟨⟨key, hkey, fun place hplace => ?_⟩, ih hmerge.2 hrest h⟩
      rw [targetOf_of_table h hothers, hnone] at hplace
      cases hplace
    · have hmem : place ∈ places key := mem_places_of_targetOf hplace
      have hsame : targetOf r key = some place :=
        (targetOf_of_table h hothers).trans (targetOf_set new hplace)
      have hfound : r.get? place = some new := by
        rw [get?_of_table h (hothers place hmem), Table.get?_set_self]
      refine List.forall_mem_cons.mpr ⟨⟨key, hkey, fun other hother => ?_⟩, ih ?_ hrest h⟩
      · obtain rfl : place = other := Option.some.inj (hsame.symm.trans hother)
        exact ⟨new, hfound, hmerge.1 place hmem new hnew⟩
      · -- what the other entries are merged into is as it was
        intro e he other hother
        have hne : other ≠ place := by
          rintro rfl
          exact hothers other hmem e he hother
        rw [Table.get?_set_of_ne hne]
        exact hmerge.2 e he other hother

/-- A table is merged once and for all if that is so for the entries that a child may have. -/
theorem table_again {Q : α → Prop} {c p r : Table α} (hc : ∀ e ∈ c, Q e.2)
    (hcreate : ∀ key, Q (create key))
    (hmerge : ∀ e ∈ p, ∀ old new, Q old → merge old e.2 = .ok new → merge new e.2 = .ok new)
    (hapart : Apart app p.names) (h : table app merge create c p = .ok r) :
    table app merge create r p = .ok r := by
  refine table_of_settled (settled_of_table ?_ hapart h)
  intro e he place _ new hnew
  refine hmerge e he _ new ?_ hnew
  cases hold : c.get? place with
  | none => exact hcreate place
  | some old => exact hc _ (Table.mem_of_get? hold)

end Tables

end Raml.Merge
