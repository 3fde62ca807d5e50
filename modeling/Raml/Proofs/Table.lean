import Mathlib.Data.List.Forall2
import Raml.Proofs.Outcome
import Raml.Table

/-!
# Tables that grow

`Extends` is how a table may change while it is added to: its entries stay in their order, each in
the relation `R` to what it was, and everything new comes after them. The two ways in which tables
are written to both keep it: an entry that is put under a new name comes last, and one that is put
in the place of another may only change as `R` allows.
-/

namespace Raml.Table

variable {α : Type} {R : α → α → Prop}

/-- The entries of the first table, changed as `R` allows, begin the second one. -/
def Extends (R : α → α → Prop) : Table α → Table α → Prop
  | [], _ => True
  | _ :: _, [] => False
  | (n, a) :: t, (n', a') :: t' => n' = n ∧ R a a' ∧ Extends R t t'

theorem extends_refl (h : ∀ a, R a a) : ∀ t : Table α, Extends R t t
  | [] => trivial
  | (_, a) :: t => ⟨rfl, h a, extends_refl h t⟩

/-- What is found in the first table is found in the second one, changed as `R` allows. -/
theorem get?_of_extends {key : String} {a : α} : ∀ {t t' : Table α}, Extends R t t' →
    t.get? key = some a → ∃ a', t'.get? key = some a' ∧ R a a'
  | [], _, _, h => nomatch h
  | _ :: _, [], hext, _ => hext.elim
  | (n, b) :: t, (n', b') :: t', ⟨hn, hb, ht⟩, h => by
      rw [Table.get?] at h ⊢
      rw [hn]
      split at h
      · rename_i hkey
        rw [if_pos hkey]
        exact ⟨b', rfl, Option.some.inj h ▸ hb⟩
      · rename_i hkey
        rw [if_neg hkey]
        exact get?_of_extends ht h

/-- A table that was extended begins with the old keys. -/
theorem names_of_extends : ∀ {t t' : Table α}, Extends R t t' → t.names <+: t'.names
  | [], _, _ => List.nil_prefix
  | _ :: _, [], hext => hext.elim
  | (n, a) :: t, (n', a') :: t', ⟨hn, _, ht⟩ => by
      rw [names, names, List.map_cons, List.map_cons, hn]
      exact List.cons_prefix_cons.mpr ⟨rfl, names_of_extends ht⟩

/-- Putting an entry in the place of the one it came from keeps all others. -/
theorem Extends.set {key : String} {new : α} :
    ∀ {t t' : Table α}, Extends R t t' →
      (∀ e ∈ t, ∀ old, t'.get? key = some old → R e.2 old → R e.2 new) →
      Extends R t (t'.set key new)
  | [], _, _, _ => trivial
  | _ :: _, [], h, _ => h.elim
  | (n, a) :: t, (n', a') :: t', ⟨hn, ha, ht⟩, hnew => by
      -- what is found under the key is the first entry there, and that is the one replaced
      by_cases hk : n' = key
      · have hget : get? key ((n', a') :: t') = some a' := by rw [get?, if_pos hk]
        rw [Table.set, if_pos hk]
        exact ⟨hn, hnew (n, a) (List.mem_cons_self ..) a' hget ha, ht⟩
      · have hget : get? key ((n', a') :: t') = get? key t' := by rw [get?, if_neg hk]
        rw [Table.set, if_neg hk]
        refine ⟨hn, ha, ht.set fun e he old hold => ?_⟩
        exact hnew e (List.mem_cons_of_mem _ he) old (hget.trans hold)

/-- The first of two tables that has a key answers for it. -/
theorem get?_append {key : String} (t t' : Table α) :
    get? key (t ++ t') = (t.get? key).or (t'.get? key) := by
  induction t with
  | nil => rfl
  | cons e t ih =>
    obtain ⟨n, a⟩ := e
    rw [List.cons_append, get?, get?]
    split
    · rfl
    · exact ih

/-- Finding an entry in a table with other names and entries, if the new names tell it apart. -/
theorem get?_map {β : Type} {f : String → String} {g : α → β} {key : String}
    (hf : ∀ m, f m = f key → m = key) (t : Table α) :
    get? (f key) (t.map fun e => (f e.1, g e.2)) = (t.get? key).map g := by
  induction t with
  | nil => rfl
  | cons e t ih =>
    obtain ⟨n, a⟩ := e
    rw [List.map_cons, get?, get?]
    by_cases hn : n = key
    · rw [if_pos (congrArg f hn), if_pos hn]
      rfl
    · rw [if_neg fun h => hn (hf n h), if_neg hn]
      exact ih

theorem mem_of_get? {key : String} {a : α} {t : Table α} (h : t.get? key = some a) :
    (key, a) ∈ t := by
  induction t with
  | nil => cases h
  | cons e t ih =>
    obtain ⟨n, b⟩ := e
    rw [get?] at h
    split at h
    · rename_i hn
      rw [← hn, Option.some.inj h]
      exact List.mem_cons_self ..
    · exact List.mem_cons_of_mem _ (ih h)

theorem get?_eq_none {key : String} {t : Table α} (h : ∀ a, (key, a) ∉ t) : t.get? key = none := by
  cases hget : t.get? key with
  | none => rfl
  | some a => exact absurd (mem_of_get? hget) (h a)

theorem get?_ne_none {key : String} {a : α} {t : Table α} (h : (key, a) ∈ t) :
    t.get? key ≠ none := by
  have hname : key ∈ t.names := List.mem_map_of_mem h
  have hhas : t.has key = true := has_iff_mem_names.mpr hname
  rw [has] at hhas
  exact Option.isSome_iff_ne_none.mp hhas

/-- A table has the keys for which it has an entry. -/
theorem has_iff_exists {key : String} {t : Table α} :
    t.has key = true ↔ ∃ a, t.get? key = some a :=
  Option.isSome_iff_exists

theorem get?_eq_none_iff {key : String} {t : Table α} :
    t.get? key = none ↔ ¬t.has key = true := by
  simp [has]

theorem get?_of_not_has {key : String} {t : Table α} (h : ¬t.has key = true) :
    t.get? key = none :=
  get?_eq_none_iff.mpr h

/-- The entry that is found stands behind those of other names. -/
theorem eq_append_of_get? {key : String} {a : α} {t : Table α} (h : t.get? key = some a) :
    ∃ after, t = t.takeWhile (fun e => e.1 ≠ key) ++ (key, a) :: after := by
  induction t with
  | nil => cases h
  | cons e t ih =>
    obtain ⟨n, b⟩ := e
    by_cases hn : n = key
    · rw [get?, if_pos hn] at h
      refine ⟨t, ?_⟩
      rw [List.takeWhile_cons_of_neg (by simpa using hn), hn, Option.some.inj h]
      rfl
    · rw [get?, if_neg hn] at h
      obtain ⟨after, ht⟩ := ih h
      refine ⟨after, ?_⟩
      rw [List.takeWhile_cons_of_pos (by simpa using hn), List.cons_append, ← ht]

/-- An entry under a new name comes after all others. -/
theorem set_of_not_has {key : String} {a : α} :
    ∀ {t : Table α}, t.has key = false → t.set key a = t ++ [(key, a)]
  | [], _ => rfl
  | (n, b) :: t, h => by
      by_cases hn : n = key
      · simp [has, get?, hn] at h
      · have ht : Table.has key t = false := by simpa [has, get?, hn] using h
        rw [Table.set, if_neg hn, set_of_not_has ht, List.cons_append]

/-- Setting a key that is there moves no key. -/
theorem names_set_of_get? {key : String} {old new : α} {t : Table α} (h : t.get? key = some old) :
    (t.set key new).names = t.names := by
  rw [names_set, if_pos (has_iff_exists.mpr ⟨old, h⟩)]

/-- A name is added if it is missing. -/
theorem names_set_append (key : String) (a : α) (t : Table α) :
    (t.set key a).names = t.names ++ [key].filter (· ∉ t.names) := by
  rw [names_set]
  by_cases hkey : key ∈ t.names
  · rw [if_pos (has_iff_mem_names.mpr hkey)]
    simp [hkey]
  · rw [if_neg (fun hhas => hkey (has_iff_mem_names.mp hhas))]
    simp [hkey]

/-- Of the names that are missing, each taken once, the first comes before those that are missing
still when it is there. -/
theorem eraseDups_missing_cons {κ : Type} [DecidableEq κ] {names : List κ} {name : κ}
    (hnew : name ∉ names) (rest : List κ) :
    ((name :: rest).filter (· ∉ names)).eraseDups =
      name :: (rest.filter (· ∉ names ++ [name])).eraseDups := by
  have hlater : rest.filter (· ∉ names ++ [name]) =
      (rest.filter (· ∉ names)).filter fun other => !other == name := by
    rw [List.filter_filter]
    refine List.filter_congr fun other _ => ?_
    by_cases hother : other = name <;> simp [hother]
  rw [List.filter_cons_of_pos (by simpa using hnew), List.eraseDups_cons, hlater]

theorem of_mem_set {key : String} {a : α} {e : String × α} :
    ∀ {t : Table α}, e ∈ t.set key a → e = (key, a) ∨ e ∈ t
  | [], h => .inl (List.mem_singleton.mp h)
  | (n, b) :: t, h => by
      rw [Table.set] at h
      split at h
      · rename_i hn
        exact (List.mem_cons.mp h).imp (fun he => by rw [he, hn]) (List.mem_cons_of_mem _)
      · rcases List.mem_cons.mp h with rfl | h
        · exact .inr (List.mem_cons_self ..)
        · exact (of_mem_set h).imp_right (List.mem_cons_of_mem _)

/-- What holds of all entries, and of the one that is put in, holds of those in the new table. -/
theorem forall_mem_set {C : String × α → Prop} {t : Table α} {key : String} {a : α}
    (h : ∀ e ∈ t, C e) (ha : C (key, a)) : ∀ e ∈ t.set key a, C e := by
  intro e he
  rcases of_mem_set he with rfl | he
  · exact ha
  · exact h e he

/-- What holds of all values, and of the one to fall back on, holds of what is found. -/
theorem of_getD_get? {C : α → Prop} {t : Table α} {key : String} {a : α} (h : ∀ e ∈ t, C e.2)
    (ha : C a) : C ((t.get? key).getD a) := by
  cases hget : t.get? key with
  | none => exact ha
  | some old => exact h _ (mem_of_get? hget)

theorem forall_mem_ofEntries {C : String × α → Prop} {es : List (String × α)}
    (h : ∀ e ∈ es, C e) : ∀ e ∈ ofEntries es, C e := by
  have hfold : ∀ t : Table α, (∀ e ∈ t, C e) →
      ∀ e ∈ es.foldl (fun t e => t.set e.1 e.2) t, C e := by
    induction es with
    | nil => exact fun _ ht => ht
    | cons f es ih =>
      rw [List.forall_mem_cons] at h
      exact fun t ht => ih h.2 _ (forall_mem_set ht h.1)
  exact hfold [] (List.forall_mem_nil _)

/-- Entries under different names make a table as they are. -/
theorem ofEntries_of_distinct {es : Table α} (h : es.Distinct) : ofEntries es = es := by
  have hfold : ∀ t : Table α, (∀ n ∈ t.names, n ∉ es.names) →
      es.foldl (fun t e => t.set e.1 e.2) t = t ++ es := by
    induction es with
    | nil => exact fun t _ => (List.append_nil t).symm
    | cons e es ih =>
      obtain ⟨n, a⟩ := e
      rw [Distinct, names, List.map_cons, List.nodup_cons] at h
      intro t ht
      have hnew : t.has n = false := by
        rw [← Bool.not_eq_true, has_iff_mem_names]
        exact fun hmem => ht n hmem (List.mem_cons_self ..)
      rw [List.foldl_cons, set_of_not_has hnew, ih h.2, List.append_assoc, List.singleton_append]
      intro m hm
      rw [names, List.map_append, List.mem_append] at hm
      rcases hm with hm | hm
      · exact fun hmem => ht m hm (List.mem_cons_of_mem _ hmem)
      · rw [List.mem_singleton.mp hm]
        exact h.1
  exact hfold [] (List.forall_mem_nil _)

theorem distinct_filter {p : String × α → Bool} {t : Table α} (h : t.Distinct) :
    Distinct (t.filter p) :=
  List.Nodup.sublist (List.filter_sublist.map _) h

/-! ## Tables changed entry by entry -/

/-- Whether a table has the names of another, each entry in the relation `S` to the one there. -/
def Matches {β : Type} (S : String → α → β → Prop) (t : Table α) (t' : Table β) : Prop :=
  List.Forall₂ (fun e e' => e'.1 = e.1 ∧ S e.1 e.2 e'.2) t t'

section Changed

variable {ε β : Type} {S : String → α → β → Prop} {f : α → Except ε β} {t : Table α} {t' : Table β}

/-- Tables that match have the same keys in the same order. -/
theorem Matches.names (h : Matches S t t') : t'.names = t.names := by
  induction h with
  | nil => rfl
  | cons he _ ih => exact congrArg₂ List.cons he.1 ih

/-- What is found in the changed table was made of what is found in the first one. -/
theorem Matches.of_get? {key : String} {b : β} (h : Matches S t t') (hb : t'.get? key = some b) :
    ∃ a, t.get? key = some a ∧ S key a b := by
  induction h with
  | nil => cases hb
  | @cons e e' t t' he _ ih =>
    obtain ⟨n, a⟩ := e
    obtain ⟨n', b'⟩ := e'
    obtain ⟨rfl, hS⟩ := he
    rw [get?] at hb ⊢
    split at hb
    · rename_i hkey
      rw [if_pos hkey]
      exact ⟨a, rfl, hkey ▸ Option.some.inj hb ▸ hS⟩
    · rename_i hkey
      rw [if_neg hkey]
      exact ih hb

/-- A name means corresponding entries of tables that match. -/
theorem Matches.get? {key : String} (h : Matches S t t') :
    Option.Rel (S key) (t.get? key) (t'.get? key) := by
  induction h with
  | nil => exact .none
  | @cons e e' t t' he _ ih =>
    obtain ⟨n, a⟩ := e
    obtain ⟨n', b⟩ := e'
    obtain ⟨rfl, hS⟩ := he
    rw [Table.get?, Table.get?]
    split
    · rename_i hkey
      exact .some (hkey ▸ hS)
    · exact ih

/-- Tables go on matching when matching entries are set. -/
theorem Matches.set {key : String} {a : α} {b : β} (h : Matches S t t') (hab : S key a b) :
    Matches S (t.set key a) (t'.set key b) := by
  induction h with
  | nil => exact .cons ⟨rfl, hab⟩ .nil
  | @cons e e' t t' he ht ih =>
    obtain ⟨n, x⟩ := e
    obtain ⟨n', y⟩ := e'
    obtain ⟨rfl, hS⟩ := he
    rw [Table.set, Table.set]
    split
    · rename_i hkey
      exact .cons ⟨rfl, hkey ▸ hab⟩ ht
    · exact .cons ⟨rfl, hS⟩ ih

theorem Matches.append {u : Table α} {u' : Table β} (h : Matches S t t') (hu : Matches S u u') :
    Matches S (t ++ u) (t' ++ u') :=
  List.rel_append h hu

theorem Matches.mono {S' : String → α → β → Prop} (h : Matches S t t')
    (hS : ∀ key a b, S key a b → S' key a b) : Matches S' t t' :=
  List.Forall₂.imp (fun _ _ he => ⟨he.1, hS _ _ _ he.2⟩) h

/-- What matches two tables one after the other matches through the one between them. -/
theorem Matches.trans {γ : Type} {S' : String → β → γ → Prop} {t'' : Table γ}
    (h : Matches S t t') (h' : Matches S' t' t'') :
    Matches (fun key a c => ∃ b, S key a b ∧ S' key b c) t t'' := by
  induction h generalizing t'' with
  | nil =>
    cases h'
    exact .nil
  | cons he _ ih =>
    obtain ⟨e'', rest, he', hrest, rfl⟩ := List.forall₂_cons_left_iff.mp h'
    exact .cons ⟨he'.1.trans he.1, _, he.2, he.1 ▸ he'.2⟩ (ih hrest)

/-- Every entry of a table has one that it corresponds to. -/
theorem Matches.of_mem {e : String × β} (h : Matches S t t') (he : e ∈ t') :
    ∃ a, (e.1, a) ∈ t ∧ S e.1 a e.2 := by
  obtain ⟨⟨n, a⟩, hmem, hn, hS⟩ := exists_of_mem_right h he
  obtain rfl : e.1 = n := hn
  exact ⟨a, hmem, hS⟩

theorem matches_of_mapValuesM : ∀ {t : Table α} {t' : Table β}, mapValuesM f t = .ok t' →
    Matches (fun _ a b => f a = .ok b) t t'
  | [], _, h => by
      rw [mapValuesM] at h
      cases h
      exact .nil
  | (n, a) :: t, _, h => by
      rw [mapValuesM] at h
      obtain ⟨b, hb, h⟩ := bind_eq_ok.mp h
      obtain ⟨rest, hrest, h⟩ := bind_eq_ok.mp h
      rw [← pure_eq_ok.mp h]
      exact .cons ⟨rfl, hb⟩ (matches_of_mapValuesM hrest)

/-- Every entry of a table that was changed comes from one that the step made it of. -/
theorem of_mem_mapValuesM {e : String × β} (h : mapValuesM f t = .ok t') (he : e ∈ t') :
    ∃ a, (e.1, a) ∈ t ∧ f a = .ok e.2 :=
  (matches_of_mapValuesM h).of_mem he

/-- If every value of a table can be changed, the whole table can be. -/
theorem mapValuesM_of_forall {R : α → β → Prop} (h : ∀ e ∈ t, ∃ b, f e.2 = .ok b ∧ R e.2 b) :
    ∃ t', mapValuesM f t = .ok t' ∧ Matches (fun _ => R) t t' := by
  induction t with
  | nil => exact ⟨[], rfl, .nil⟩
  | cons e t ih =>
    obtain ⟨n, a⟩ := e
    rw [List.forall_mem_cons] at h
    obtain ⟨⟨b, hb, hR⟩, h⟩ := h
    obtain ⟨t', ht', hall⟩ := ih h
    refine ⟨(n, b) :: t', ?_, .cons ⟨rfl, hR⟩ hall⟩
    rw [mapValuesM, hb, ht']
    rfl

theorem of_mem_mapValues {f : α → β} {e : String × β} (h : e ∈ t.mapValues f) :
    ∃ a, (e.1, a) ∈ t ∧ f a = e.2 := by
  obtain ⟨⟨n, a⟩, hmem, rfl⟩ := List.mem_map.mp h
  exact ⟨a, hmem, rfl⟩

/-! ## Tables that a change leaves alone -/

theorem mapValues_eq_self {f : α → α} (h : ∀ e ∈ t, f e.2 = e.2) : t.mapValues f = t := by
  have hsame : ∀ e ∈ t, (e.1, f e.2) = e := fun e he => Prod.ext rfl (h e he)
  exact (List.map_congr_left hsame).trans (List.map_id t)

theorem mapValuesM_eq_self {f : α → Except ε α} (h : ∀ e ∈ t, f e.2 = .ok e.2) :
    mapValuesM f t = .ok t := by
  induction t with
  | nil => rfl
  | cons e t ih =>
    rw [List.forall_mem_cons] at h
    rw [mapValuesM, h.1, ih h.2]
    rfl

end Changed

end Raml.Table
