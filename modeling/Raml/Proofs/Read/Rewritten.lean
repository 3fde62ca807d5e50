import Raml.Proofs.Merge.Copied
import Raml.Proofs.Read.Checked
import Raml.Proofs.Read.Scalar
import Raml.Proofs.Shape.Rewritten

/-!
# Entities that are written and read again

An entity is written as a mapping of rows, one for each field that is there, in front of them one
for the annotations. When that mapping is read, the fields hold what the rows say (`IsWritten`),
and whatever moves entries to the fields they belong to leaves them where they are. So a field is
read again if what was read from it is: `Rereads` says so of a reader, and there is one lemma for
each way of putting readers together.
-/

namespace Raml

open Shape (AllClear)

variable {α : Type}

namespace Table

theorem get?_filter {p : String → Bool} (name : String) (t : Table α) :
    get? name (t.filter fun e => p e.1) = if p name = true then t.get? name else none := by
  induction t with
  | nil => exact (ite_self none).symm
  | cons e t ih =>
    obtain ⟨n, a⟩ := e
    rw [List.filter_cons, get?]
    by_cases hn : n = name
    · subst hn
      rw [if_pos rfl]
      split
      · rw [get?, if_pos rfl]
      · rename_i hp
        rw [ih, if_neg hp]
    · rw [if_neg hn, ← ih]
      split
      · rw [get?, if_neg hn]
      · rfl

/-- Changing the values of a table under their keys changes what each key stands for. -/
theorem get?_mapEntries {f : String → α → α} (name : String) (t : Table α) :
    get? name (t.map fun e => (e.1, f e.1 e.2)) = (t.get? name).map (f name) := by
  induction t with
  | nil => rfl
  | cons e t ih =>
    obtain ⟨n, a⟩ := e
    rw [List.map_cons, get?, get?]
    split
    · rename_i hn
      rw [hn]
      rfl
    · exact ih

/-- A table is the mapping of its entries if their names are distinct. -/
theorem mapOf_of_distinct {t : Table α} (h : t.Distinct) :
    Value.mapOf (t.map fun e => (Value.str e.1, e.2)) = t.map fun e => (.str e.1, e.2) :=
  Value.mapOf_of_pairwise (Value.pairwise_map_str h)

end Table

namespace Value

theorem list_ne_null {items : List Value} : Value.list items ≠ .null := by simp

theorem map_ne_null {entries : List (Value × Value)} : Value.map entries ≠ .null := by simp

end Value

/-! ## Readers -/

namespace Checked

/-- A list is read if each of its items is. -/
theorem all_eq_good {cs : List (Checked α)} {as : List α} :
    all cs = .good as ↔ List.Forall₂ (fun c a => c = .good a) cs as := by
  induction cs generalizing as with
  | nil => simp [all, eq_comm]
  | cons c cs ih =>
    rw [all, seq_eq_good, List.forall₂_cons_left_iff]
    constructor
    · rintro ⟨_, rest, hc, hrest, rfl⟩
      obtain ⟨a, rfl, rfl⟩ := map_eq_good.mp hc
      exact ⟨a, rest, rfl, ih.mp hrest, rfl⟩
    · rintro ⟨a, rest, rfl, hrest, rfl⟩
      exact ⟨_, rest, rfl, ih.mpr hrest, rfl⟩

/-! Something that is put together is good if all its parts are. -/

/-- Whether something good is read, of which `P` holds. -/
def Yields (x : Checked α) (P : α → Prop) : Prop := ∃ a, x = .good a ∧ P a

theorem eq_good_iff {x : Checked α} {a : α} : x = .good a ↔ x.Yields (· = a) :=
  ⟨fun h => ⟨a, h, rfl⟩, fun ⟨_, h, ha⟩ => ha ▸ h⟩

theorem yields_map {β : Type} {f : α → β} {x : Checked α} {P : β → Prop} :
    (f <$> x).Yields P ↔ ∃ a, x = .good a ∧ P (f a) := by
  cases x <;> simp [Yields, Functor.map, map]

theorem yields_seq {β : Type} {f : Checked (α → β)} {x : Checked α} {P : β → Prop} :
    (f <*> x).Yields P ↔ ∃ a, x = .good a ∧ f.Yields fun g => P (g a) := by
  cases f <;> cases x <;> simp [Yields, Seq.seq, apply]

end Checked

/-- The values of a mapping. -/
def Value.members : Value → List Value
  | .map entries => entries.map Prod.snd
  | _ => []

namespace Reader

variable {read : Reader α} {write : α → Value} {C : Value → Prop}

/-- Whether what is read from nodes that `C` holds of is read again from what is written for it. -/
def Rereads (C : Value → Prop) (read : Reader α) (write : α → Value) : Prop :=
  ∀ ⦃v a⦄, C v → read v = .good a → read (write a) = .good a

theorem rereads_any : Rereads C any id := fun _ _ _ _ => rfl

theorem rereads_text : Rereads C text .str := fun _ _ _ _ => rfl

/-- A value with templates is read again from what it is written as. -/
theorem rereads_templated {k : Kind α} (hk : k.IsWritten) :
    Rereads C (templated k) (Templated.toValue k) := by
  intro v t _ h
  rw [templated] at h
  split at h
  · rename_i t' ht
    cases h
    rw [templated, Kind.readTemplated_toValue hk ht]
  · cases h

theorem items_eq_good {place : Nat} {vs : List Value} {as : List α} :
    items read place vs = .good as ↔ List.Forall₂ (fun v a => read v = .good a) vs as := by
  induction vs generalizing place as with
  | nil => simp [items, eq_comm]
  | cons v vs ih =>
    rw [items, Checked.seq_eq_good, List.forall₂_cons_left_iff]
    constructor
    · rintro ⟨_, rest, hhead, hrest, rfl⟩
      obtain ⟨a, hv, rfl⟩ := Checked.map_eq_good.mp hhead
      exact ⟨a, rest, Checked.under_eq_good.mp hv, ih.mp hrest, rfl⟩
    · rintro ⟨a, rest, hv, hrest, rfl⟩
      refine ⟨_, rest, Checked.map_eq_good.mpr ⟨a, ?_, rfl⟩, ih.mpr hrest, rfl⟩
      exact Checked.under_eq_good.mpr hv

theorem mem_of_list {v : Value} {as : List α} (h : list read v = .good as) :
    ∀ a ∈ as, ∃ w, read w = .good a := by
  have hitems : ∀ {vs}, items read 0 vs = .good as → ∀ a ∈ as, ∃ w, read w = .good a := by
    intro vs hvs a ha
    obtain ⟨w, -, hw⟩ := exists_of_mem_right (items_eq_good.mp hvs) ha
    exact ⟨w, hw⟩
  rw [list.eq_def] at h
  split at h
  · exact hitems h
  · exact hitems h
  · exact hitems h
  · cases h

theorem list_map {as : List α} (h : ∀ a ∈ as, read (write a) = .good a) :
    list read (.list (as.map write)) = .good as := by
  refine items_eq_good.mpr ?_
  induction as with
  | nil => exact .nil
  | cons a as ih =>
    rw [List.forall_mem_cons] at h
    exact .cons h.1 (ih h.2)

/-- A list is read again if its items are. -/
theorem rereads_list (h : Rereads (fun _ => True) read write) :
    Rereads C (list read) fun as => .list (as.map write) := by
  intro v as _ has
  refine list_map fun a ha => ?_
  obtain ⟨w, hw⟩ := mem_of_list has a ha
  exact h trivial hw

section Entries

variable {β : Type} {x : β → Checked α} {key : β → Value}

/-- Where the entries of a mapping that is read come from. -/
theorem of_mem_entries {bs : List β} {es : List (String × α)}
    (h : Checked.all (bs.map fun b => entry (fun _ => x b) (key b) .null) = .good es) :
    ∀ e ∈ es, ∃ b ∈ bs, text (key b) = .good e.1 ∧ x b = .good e.2 := by
  rw [Checked.all_eq_good, List.forall₂_map_left_iff] at h
  intro e he
  obtain ⟨b, hb, hentry⟩ := exists_of_mem_right h he
  obtain ⟨f, a, hkey, ha, heq⟩ := Checked.seq_eq_good.mp hentry
  obtain ⟨k, hk, rfl⟩ := Checked.map_eq_good.mp hkey
  refine ⟨b, hb, ?_⟩
  rw [← heq]
  exact ⟨Checked.under_eq_good.mp (Checked.under_eq_good.mp hk), Checked.under_eq_good.mp ha⟩

theorem mem_of_entries {bs : List β} {es : List (String × α)}
    (h : Checked.all (bs.map fun b => entry (fun _ => x b) (key b) .null) = .good es) :
    ∀ e ∈ es, ∃ b ∈ bs, x b = .good e.2 :=
  fun e he => (of_mem_entries h e he).imp fun _ hb => ⟨hb.1, hb.2.2⟩

/-- Entries whose values are read are read under their names. -/
theorem all_entries {t : Table α} {x : String × α → Checked α} (h : ∀ e ∈ t, x e = .good e.2) :
    Checked.all (t.map fun e => entry (fun _ => x e) (.str e.1) .null) = .good t := by
  rw [Checked.all_eq_good, List.forall₂_map_left_iff]
  induction t with
  | nil => exact .nil
  | cons e t ih =>
    rw [List.forall_mem_cons] at h
    refine .cons ?_ (ih h.2)
    refine Checked.seq_eq_good.mpr ⟨Prod.mk e.1, e.2, rfl, ?_, rfl⟩
    exact Checked.under_eq_good.mpr h.1

end Entries

/-- What stands in a table was read from a member of the mapping. -/
theorem mem_of_table {v : Value} {t : Table α} (h : table read v = .good t) :
    ∀ e ∈ t, ∃ w ∈ v.members, read w = .good e.2 := by
  cases v with
  | map entries =>
    obtain ⟨es, hes, rfl⟩ := Checked.map_eq_good.mp h
    refine Table.forall_mem_ofEntries fun e he => ?_
    obtain ⟨e', he', hread⟩ := mem_of_entries (x := fun e : Value × Value => read e.2) hes e he
    exact ⟨e'.2, List.mem_map_of_mem he', hread⟩
  | _ => cases h

theorem table_ofTable {t : Table α} (hdistinct : t.Distinct)
    (h : ∀ e ∈ t, read (write e.2) = .good e.2) : table read (Value.ofTable write t) = .good t := by
  have hentries : Checked.all ((t.map fun e => (Value.str e.1, write e.2)).map
      fun e => entry read e.1 e.2) = .good t := by
    rw [List.map_map]
    exact all_entries (x := fun e => read (write e.2)) h
  refine Checked.map_eq_good.mpr ⟨t, hentries, ?_⟩
  exact Table.ofEntries_of_distinct hdistinct

/-- A table is read again if its values are. -/
theorem rereads_table (h : Rereads C read write) :
    Rereads (fun v => ∀ w ∈ v.members, C w) (table read) (Value.ofTable write) := by
  intro v t hC ht
  refine table_ofTable (distinct_of_table ht) fun e he => ?_
  obtain ⟨w, hw, hread⟩ := mem_of_table ht e he
  exact h (hC w hw) hread

theorem Rereads.mono {C' : Value → Prop} (h : Rereads C read write) (hC : ∀ v, C' v → C v) :
    Rereads C' read write := fun _ _ hv ha => h (hC _ hv) ha

section Adopted

variable {name : α → String} {rename : String → α → α}

/-- Names that are adopted do not change the keys. -/
theorem distinct_adoptNames {t : Table α} (h : t.Distinct) :
    Table.Distinct (adoptNames name rename t) := by
  have hnames : Table.names (adoptNames name rename t) = Table.names t := List.map_map ..
  rw [Table.Distinct, hnames]
  exact h

/-- Names are adopted once and for all. -/
theorem adoptNames_adoptNames (name : α → String) (rename : String → α → α)
    (h : ∀ key a, rename key (rename key a) = rename key a) (t : Table α) :
    adoptNames name rename (adoptNames name rename t) = adoptNames name rename t := by
  rw [adoptNames, adoptNames, List.map_map]
  refine List.map_congr_left fun e _ => congrArg (Prod.mk e.1) ?_
  split
  · split
    · exact h e.1 e.2
    · rfl
  · rfl

/-- Members that take their names from their keys have them the second time. -/
theorem rereads_adopted (name : α → String) (rename : String → α → α)
    (hrename : ∀ key a, rename key (rename key a) = rename key a)
    (h : Rereads C read write)
    (hrenamed : ∀ ⦃v a⦄, C v → read v = .good a → ∀ key,
      read (write (rename key a)) = .good (rename key a)) :
    Rereads (fun v => ∀ w ∈ v.members, C w)
      (fun v => (table read v).map (adoptNames name rename)) (Value.ofTable write) := by
  intro v t hC ht
  obtain ⟨t', ht', rfl⟩ := Checked.map_eq_good.mp ht
  refine Checked.map_eq_good.mpr
    ⟨_, table_ofTable ?_ ?_, adoptNames_adoptNames name rename hrename t'⟩
  · exact distinct_adoptNames (distinct_of_table ht')
  · rw [adoptNames, List.forall_mem_map]
    rintro ⟨key, a⟩ he
    obtain ⟨w, hw, hread⟩ := mem_of_table ht' (key, a) he
    dsimp only
    split
    · exact hrenamed (hC w hw) hread key
    · exact h (hC w hw) hread

/-- A table that takes names from its keys has distinct ones. -/
theorem distinct_of_adopted (name : α → String) (rename : String → α → α) {names : List String}
    {f : Fields} {t : Table α}
    (h : f.collection names [] (fun v => (table read v).map (adoptNames name rename)) = .good t) :
    t.Distinct := by
  rw [Fields.collection] at h
  split at h
  · obtain ⟨t', ht', rfl⟩ := Checked.map_eq_good.mp (Checked.under_eq_good.mp h)
    exact distinct_adoptNames (distinct_of_table ht')
  · cases h
    exact List.nodup_nil

end Adopted

end Reader

/-! ## Fields -/

/-- A row of a mapping that is written: a field, and what stands there if it is there. -/
abbrev Rows := List (String × Option Value)

namespace Rows

/-- The entries for the rows that are there. -/
def entries (rows : Rows) : List (Value × Value) :=
  rows.filterMap fun e => e.2.map (Value.str e.1, ·)

theorem entries_none (n : String) (rows : Rows) : entries ((n, none) :: rows) = rows.entries := rfl

theorem entries_some (n : String) (v : Value) (rows : Rows) :
    entries ((n, some v) :: rows) = (.str n, v) :: rows.entries := rfl

theorem isShown_of_mem_entries {rows : Rows} : ∀ e ∈ rows.entries, e.1.isShown = true := by
  intro e he
  obtain ⟨row, -, hrow⟩ := List.mem_filterMap.mp he
  obtain ⟨v, -, rfl⟩ := Option.map_eq_some_iff.mp hrow
  rfl

/-- A row with a value is found by its name. -/
theorem find?_entries {name : String} {v : Value} {rows : Rows}
    (h : Table.get? name rows = some (some v)) :
    rows.entries.find? (fun e => e.1.key == name) = some (.str name, v) := by
  induction rows with
  | nil => cases h
  | cons row rows ih =>
    obtain ⟨n, o⟩ := row
    rw [Table.get?] at h
    by_cases hn : n = name
    · rw [if_pos hn] at h
      obtain rfl := Option.some.inj h
      rw [hn, entries_some]
      exact List.find?_cons_of_pos (beq_self_eq_true name)
    · rw [if_neg hn] at h
      cases o with
      | none => rw [entries_none, ih h]
      | some w =>
        have hkey : ((Value.str n).key == name) = false := beq_eq_false_iff_ne.mpr hn
        rw [entries_some, List.find?_cons, hkey]
        exact ih h

end Rows

namespace Fields

/-- Whether names are those of fields: they differ, and none is that of annotations. -/
def ArePlain (names : List String) : Prop :=
  names.Nodup ∧ ∀ n ∈ names, isAnnotation n = false ∧ n ≠ "annotations"

instance (names : List String) : Decidable (ArePlain names) := by
  unfold ArePlain
  infer_instance

/-- Whether fields are those that are read from rows and annotations. -/
structure IsWritten (annotations : Table Value) (rows : Rows) (f : Fields) : Prop where
  annotations : f.annotations = annotations.map fun e => (.str e.1, e.2)
  entries : ∀ name, f.entries.get? name = (Table.get? name rows).join

variable {annotations : Table Value} {rows : Rows} {names others : List String} {name : String}

/-- The fields with one more entry of their mapping. -/
def add (f : Fields) (e : Value × Value) : Fields :=
  if isAnnotation e.1.key then
    { f with annotations :=
        Value.insert (.str (String.ofList (e.1.key.toList.tail.dropLast))) e.2 f.annotations }
  else if e.1.key == "annotations" then f
  else { f with entries := f.entries.set e.1.key e.2 }

/-- Keys are taken if each of them has a text. -/
theorem checkKeys_eq_ok {es : List (Value × Value)} :
    checkKeys es = .ok () ↔ ∀ e ∈ es, e.1.isShown = true := by
  rw [checkKeys, ← List.all_eq_true]
  split
  · rename_i hall
    exact iff_of_true rfl hall
  · rename_i hall
    exact iff_of_false nofun hall

/-- The entries of a mapping are read as fields if every key has a text and the annotations are a
mapping themselves. -/
theorem ofEntries_eq_ok {es : List (Value × Value)} {f : Fields} :
    ofEntries es = .ok f ↔ (∀ e ∈ es, e.1.isShown = true) ∧
      ∃ own, mappingOf "annotations" (Value.get? "annotations" es) = .ok own ∧
        es.foldl add ⟨[], own⟩ = f := by
  rw [← checkKeys_eq_ok]
  constructor
  · intro h
    obtain ⟨own, hown, h⟩ := bind_eq_ok.mp h
    obtain ⟨_, hkeys, h⟩ := bind_eq_ok.mp h
    exact ⟨hkeys, own, hown, pure_eq_ok.mp h⟩
  · rintro ⟨hkeys, own, hown, hadd⟩
    exact bind_eq_ok.mpr ⟨own, hown, bind_eq_ok.mpr ⟨(), hkeys, pure_eq_ok.mpr hadd⟩⟩

theorem add_field {n : String} (hplain : isAnnotation n = false ∧ n ≠ "annotations") (v : Value)
    (f : Fields) : f.add (.str n, v) = { f with entries := f.entries.set n v } := by
  have hkey : (Value.str n).key = n := rfl
  rw [add, hkey, hplain.1, if_neg Bool.false_ne_true, if_neg (by simpa using hplain.2)]

/-- Rows are added one after another, and leave the annotations alone. -/
theorem foldl_add (hplain : ArePlain (rows.map Prod.fst)) (f : Fields) :
    ∃ f', rows.entries.foldl add f = f' ∧
      f'.annotations = f.annotations ∧
      ∀ name, f'.entries.get? name = (Table.get? name rows).join.or (f.entries.get? name) := by
  induction rows generalizing f with
  | nil => exact ⟨f, rfl, rfl, fun name => Option.none_or.symm⟩
  | cons row rows ih =>
    obtain ⟨n, o⟩ := row
    obtain ⟨hnodup, hnames⟩ := hplain
    rw [List.map_cons, List.nodup_cons] at hnodup
    rw [List.map_cons, List.forall_mem_cons] at hnames
    have hrest : Table.get? n rows = none :=
      Table.get?_eq_none fun a ha => hnodup.1 (List.mem_map.mpr ⟨_, ha, rfl⟩)
    have hget : ∀ name, Table.get? name ((n, o) :: rows) =
        if n = name then some o else Table.get? name rows := fun _ => rfl
    cases o with
    | none =>
      -- the row gives nothing, and no other row goes by its name
      obtain ⟨f', hf', hannotations, hentries⟩ := ih ⟨hnodup.2, hnames.2⟩ f
      refine ⟨f', hf', hannotations, fun name => (hentries name).trans ?_⟩
      rw [hget]
      split
      · rename_i hn
        rw [← hn, hrest]
        rfl
      · rfl
    | some v =>
      -- the entry is set, and no later row sets it again
      obtain ⟨f', hf', hannotations, hentries⟩ :=
        ih ⟨hnodup.2, hnames.2⟩ { f with entries := f.entries.set n v }
      refine ⟨f', ?_, hannotations, fun name => (hentries name).trans ?_⟩
      · rw [Rows.entries_some, List.foldl_cons, add_field hnames.1, hf']
      · rw [hget]
        split
        · rename_i hn
          rw [← hn, hrest, Table.get?_set_self]
          rfl
        · rename_i hn
          rw [Table.get?_set_of_ne (Ne.symm hn)]

/-- A mapping that is written is read as the fields in it. -/
theorem ofEntries_written (hplain : ArePlain (rows.map Prod.fst)) :
    ∃ f, ofEntries ((.str "annotations", .map (annotations.map fun e => (.str e.1, e.2))) ::
      rows.entries) = .ok f ∧ f.IsWritten annotations rows := by
  obtain ⟨f, hf, hannotations, hentries⟩ :=
    foldl_add hplain ⟨[], annotations.map fun e => (.str e.1, e.2)⟩
  refine ⟨f, ?_, hannotations, fun name => (hentries name).trans Option.or_none⟩
  have hown : ∀ (v : Value) (es : List (Value × Value)),
      Value.get? "annotations" ((.str "annotations", v) :: es) = some v := by
    intro v es
    rw [Value.get?, Value.find?, List.find?_cons_of_pos (by rw [Value.same, beq_self_eq_true])]
    rfl
  have hadd : ∀ (v : Value) (f : Fields), f.add (.str "annotations", v) = f := by
    intro v f
    have hkey : (Value.str "annotations").key = "annotations" := rfl
    have hplain : isAnnotation "annotations" = false := by decide
    rw [add, hkey, hplain, if_neg Bool.false_ne_true, if_pos (beq_self_eq_true _)]
  refine ofEntries_eq_ok.mpr ⟨?_, _, congrArg _ (hown _ _), ?_⟩
  · exact List.forall_mem_cons.mpr ⟨rfl, Rows.isShown_of_mem_entries⟩
  · rw [← hf]
    exact congrArg (fun f => List.foldl add f _) (hadd _ _)

/-! ### Fields that are read again -/

section Written

variable {f f' : Fields} (hf : f'.IsWritten annotations rows)

theorem distinct_of_annotationTable {t : Table Value} (h : f.annotationTable = .good t) :
    t.Distinct :=
  Reader.distinct_of_table (Checked.under_eq_good.mp h)

include hf

/-- Annotations that are written under their own name are read as they were. -/
theorem IsWritten.annotationTable (h : f.annotationTable = .good annotations) :
    f'.annotationTable = .good annotations := by
  rw [Fields.annotationTable, hf.annotations]
  have hread : Reader.table Reader.any (Value.ofTable id annotations) = .good annotations :=
    Reader.table_ofTable (distinct_of_annotationTable h) fun _ _ => rfl
  exact Checked.under_eq_good.mpr hread

section Row

/-! The first of the names is that of a row, and there is none of the other names. -/

variable {o : Option Value}
  (hrow : (name :: others).map (Table.get? · rows) = some o :: others.map fun _ => none)

include hrow

/-- A field that was written is found where it was written. -/
theorem IsWritten.get? : f'.entries.get? name = o := by
  have hname : Table.get? name rows = some o := (List.cons.inj hrow).1
  rw [hf.entries, hname]
  rfl

theorem IsWritten.find?_eq : f'.find? (name :: others) = o.map (name, ·) := by
  have hothers : f'.find? others = none := by
    rw [find?, List.findSome?_eq_none_iff]
    intro n hn
    have hnone := List.map_inj_left.mp (List.cons.inj hrow).2 n hn
    rw [hf.entries, hnone]
    rfl
  rw [find?, List.findSome?_cons, hf.get? hrow, ← find?, hothers]
  cases o <;> rfl

theorem IsWritten.given?_eq :
    f'.given? (name :: others) = (o.filter fun v => !v.isNull).map (name, ·) := by
  have hothers : f'.given? others = none := by
    rw [given?, List.findSome?_eq_none_iff]
    intro n hn
    have hnone := List.map_inj_left.mp (List.cons.inj hrow).2 n hn
    rw [hf.entries, hnone]
    rfl
  rw [given?, List.findSome?_cons, hf.get? hrow, ← given?, hothers]
  cases o.filter fun v => !v.isNull <;> rfl

end Row

section Field

variable {read : Reader α} {write : α → Value}

/-- A field that must be there is read from its row. -/
theorem IsWritten.required {a : α} {v : Value}
    (hrow : [name].map (Table.get? · rows) = [some (some v)]) (h : read v = .good a) :
    f'.required name read = .good a := by
  rw [Fields.required, hf.get? hrow]
  exact Checked.under_eq_good.mpr h

theorem IsWritten.withDefault {fallback a : α} {v : Value}
    (hrow : (name :: others).map (Table.get? · rows) = some (some v) :: others.map fun _ => none)
    (h : read v = .good a) : f'.withDefault (name :: others) fallback read = .good a := by
  rw [Fields.withDefault, hf.find?_eq hrow]
  exact Checked.under_eq_good.mpr h

theorem IsWritten.any {v : Value}
    (hrow : (name :: others).map (Table.get? · rows) =
      some (v.given?.map id) :: others.map fun _ => none) :
    f'.any (name :: others) = .good v := by
  rw [Fields.any, Fields.withDefault, hf.find?_eq hrow]
  cases v <;> rfl

/-- A field that may be missing is read again. -/
theorem IsWritten.optional {C : Value → Prop} (hread : Reader.Rereads C read write)
    (hnull : ∀ a, write a ≠ .null) {o : Option α}
    (hrow : (name :: others).map (Table.get? · rows) =
      some (o.map write) :: others.map fun _ => none)
    (hC : ∀ e ∈ f.find? names, C e.2) (h : f.optional names read = .good o) :
    f'.optional (name :: others) read = .good o := by
  rw [Fields.optional, Fields.withDefault, hf.find?_eq hrow]
  cases o with
  | none => rfl
  | some a =>
    rw [Fields.optional, Fields.withDefault] at h
    split at h
    · rename_i n v hfound
      -- what was found was not null, since a null is read as nothing
      have hv : read v = .good a := by
        have h := Checked.under_eq_good.mp h
        rw [Reader.optional.eq_def] at h
        split at h
        · cases h
        · obtain ⟨a', ha', hsome⟩ := Checked.map_eq_good.mp h
          exact Option.some.inj hsome ▸ ha'
      have hwritten := hread (hC (n, v) hfound) hv
      refine Checked.under_eq_good.mpr ?_
      rw [Reader.optional.eq_def]
      split
      · exact absurd ‹_› (hnull a)
      · rw [hwritten]
        rfl
    · cases h

theorem IsWritten.text {o : Option String}
    (hrow : (name :: others).map (Table.get? · rows) =
      some (Value.ofText? o) :: others.map fun _ => none) :
    f'.optional (name :: others) Reader.text = .good o := by
  rw [Fields.optional, Fields.withDefault, hf.find?_eq hrow]
  cases o <;> rfl

/-- A field that may be missing and may hold a template is read from its row. -/
theorem IsWritten.templated {k : Kind α} (hk : k.IsWritten) {o : Option (Templated α)}
    (hrow : (name :: others).map (Table.get? · rows) =
      some (o.map (Templated.toValue k)) :: others.map fun _ => none)
    (h : f.optional names (Reader.templated k) = .good o) :
    f'.optional (name :: others) (Reader.templated k) = .good o := by
  refine hf.optional (C := fun _ => True) (Reader.rereads_templated hk) ?_ hrow
    (fun _ _ => trivial) h
  rintro (a | ⟨s, -⟩)
  · exact hk.write_ne_null a
  · exact nofun

theorem IsWritten.list {o : Option (List Value)}
    (hrow : (name :: others).map (Table.get? · rows) =
      some (o.map .list) :: others.map fun _ => none) :
    f'.optional (name :: others) (Reader.list Reader.any) = .good o := by
  rw [Fields.optional, Fields.withDefault, hf.find?_eq hrow]
  cases o with
  | none => rfl
  | some vs =>
    have hread : Reader.list Reader.any (.list vs) = .good vs :=
      Reader.items_eq_good.mpr (List.forall₂_same.mpr fun _ _ => rfl)
    refine Checked.under_eq_good.mpr ?_
    rw [Reader.optional, hread]
    · rfl
    · exact nofun

/-- A field that holds a shape or nothing is read again. -/
theorem IsWritten.shape? {o : Option Shape}
    (hrow : (name :: others).map (Table.get? · rows) =
      some (o.map Shape.toValue) :: others.map fun _ => none)
    (hclear : ∀ e ∈ f.find? names, AllClear (Shape.expressions e.2))
    (h : f.shape? names = .good o) : f'.shape? (name :: others) = .good o := by
  rw [Fields.shape?, Fields.withDefault, hf.find?_eq hrow]
  cases o with
  | none => rfl
  | some s =>
    rw [Fields.shape?, Fields.withDefault] at h
    split at h
    -- what stands in the field was read as the shape, so its writing is read as it too
    · rename_i n v hfound
      have h := Checked.under_eq_good.mp h
      rw [Reader.shape?] at h
      split at h
      · rename_i s' hs'
        cases h
        refine Checked.under_eq_good.mpr ?_
        rw [Reader.shape?, (Shape.rewritten_of_ofValue? (hclear (n, v) hfound) hs').ofValue?]
      · cases h
    · cases h

/-- A field for which null stands for the empty collection is read again. -/
theorem IsWritten.collection {C : Value → Prop} (hread : Reader.Rereads C read write)
    {empty a : α} (hempty : read (write empty) = .good empty) (hnull : write a ≠ .null)
    (hrow : (name :: others).map (Table.get? · rows) =
      some (some (write a)) :: others.map fun _ => none)
    (hC : ∀ e ∈ f.given? names, C e.2) (h : f.collection names empty read = .good a) :
    f'.collection (name :: others) empty read = .good a := by
  have hwritten : read (write a) = .good a := by
    rw [Fields.collection] at h
    split at h
    · rename_i n v hfound
      exact hread (hC (n, v) hfound) (Checked.under_eq_good.mp h)
    · cases h
      exact hempty
  have hgiven : (!(write a).isNull) = true := by
    cases hv : write a with
    | null => exact absurd hv hnull
    | _ => rfl
  rw [Fields.collection, hf.given?_eq hrow, Option.filter_some, if_pos hgiven]
  exact Checked.under_eq_good.mpr hwritten

theorem IsWritten.anyTable {t : Table Value}
    (hrow : (name :: others).map (Table.get? · rows) =
      some (some (FreeForm.table id t)) :: others.map fun _ => none)
    (h : f.collection names [] (Reader.table Reader.any) = .good t) :
    f'.collection (name :: others) [] (Reader.table Reader.any) = .good t := by
  have hread : Reader.Rereads (fun _ => True) (Reader.table Reader.any) (Value.ofTable id) :=
    (Reader.rereads_table (C := fun _ => True) Reader.rereads_any).mono fun _ _ _ _ => trivial
  exact hf.collection hread rfl nofun hrow (fun _ _ => trivial) h

end Field

end Written

/-- A row without a node says no more than none. -/
theorem IsWritten.addNone {f : Fields} (hf : f.IsWritten annotations rows) (name : String) :
    f.IsWritten annotations (rows ++ [(name, none)]) := by
  refine ⟨hf.annotations, fun n => (hf.entries n).trans ?_⟩
  rw [Table.get?_append]
  cases Table.get? n rows with
  | none =>
    rw [Option.none_or, Table.get?]
    split <;> rfl
  | some o => rfl

/-! ### Entries that stay where they are -/

/-- What an entry becomes when single texts and mappings under the given names become lists. -/
def wrapped (names : List String) (n : String) (v : Value) : Value :=
  if names.contains n then
    match v with
    | .str s => .list [.str s]
    | .map es => .list [.map es]
    | v => v
  else v

theorem entries_listify (names : List String) (f : Fields) :
    (f.listify names).entries = f.entries.map fun e => (e.1, wrapped names e.1 e.2) := by
  refine List.map_congr_left fun e _ => ?_
  obtain ⟨n, v⟩ := e
  dsimp only
  rw [wrapped.eq_def]
  by_cases hn : names.contains n = true
  · rw [if_pos hn, if_pos hn]
    cases v <;> rfl
  · rw [if_neg hn, if_neg hn]

/-- What an entry becomes when the codes of responses become texts. -/
def coded (n : String) (v : Value) : Value :=
  if n == "responses" then
    match v with
    | .map es => .map (Value.mapOf (es.map fun e => (.str e.1.key, e.2)))
    | v => v
  else v

theorem entries_nameCodes (f : Fields) :
    (Response.nameCodes f).entries = f.entries.map fun e => (e.1, coded e.1 e.2) := by
  refine List.map_congr_left fun e _ => ?_
  obtain ⟨n, v⟩ := e
  dsimp only
  rw [coded.eq_def]
  by_cases hn : (n == "responses") = true
  · rw [if_pos hn, if_pos hn]
    cases v <;> rfl
  · rw [if_neg hn, if_neg hn]

/-- Responses get codes for names if their keys have texts. -/
theorem withCodes_eq_ok {f f' : Fields} : Response.withCodes f = .ok f' ↔
    (∀ es, f.entries.get? "responses" = some (.map es) → ∀ e ∈ es, e.1.isShown = true) ∧
      Response.nameCodes f = f' := by
  rw [Response.withCodes]
  split
  · rename_i es hget
    simp only [hget, Option.some.injEq, Value.map.injEq, forall_eq', ← checkKeys_eq_ok]
    constructor
    · intro h
      obtain ⟨_, hkeys, h⟩ := bind_eq_ok.mp h
      exact ⟨hkeys, pure_eq_ok.mp h⟩
    · rintro ⟨hkeys, h⟩
      exact bind_eq_ok.mpr ⟨(), hkeys, pure_eq_ok.mpr h⟩
  · rename_i hnone
    rw [and_iff_right fun es hget => absurd hget (hnone es)]
    exact pure_eq_ok

section Arranged

variable {f : Fields} (hf : f.IsWritten annotations rows)

include hf

theorem IsWritten.mem_names {e : String × Value} (he : e ∈ f.entries) :
    e.1 ∈ rows.map Prod.fst := by
  have hget := Table.get?_ne_none he
  rw [hf.entries] at hget
  cases hrow : Table.get? e.1 rows with
  | none => exact absurd (by rw [hrow]; rfl) hget
  | some o => exact List.mem_map.mpr ⟨_, Table.mem_of_get? hrow, rfl⟩

/-- What stands in a list is not put into one. -/
theorem IsWritten.listify (names : List String)
    (h : ∀ n ∈ names, ∃ vs, Table.get? n rows = some (some (.list vs))) :
    (f.listify names).IsWritten annotations rows := by
  refine ⟨hf.annotations, fun name => ?_⟩
  rw [entries_listify, Table.get?_mapEntries, hf.entries]
  by_cases hname : names.contains name = true
  · obtain ⟨vs, hvs⟩ := h name (List.contains_iff_mem.mp hname)
    rw [hvs, Option.join_some, Option.map_some, wrapped.eq_def, if_pos hname]
  · have hid : wrapped names name = id := funext fun v => if_neg hname
    rw [hid]
    exact Option.map_id_apply

/-- The codes of responses are texts the second time. -/
theorem IsWritten.nameCodes {write : α → Value} {t : Table α} (hdistinct : t.Distinct)
    (h : Table.get? "responses" rows = some (some (Value.ofTable write t))) :
    (Response.nameCodes f).IsWritten annotations rows := by
  refine ⟨hf.annotations, fun name => ?_⟩
  rw [entries_nameCodes, Table.get?_mapEntries, hf.entries]
  -- the keys of the responses are texts already, so nothing is changed but how they are put
  by_cases hname : (name == "responses") = true
  · have hvalue : Value.ofTable write t =
        .map ((t.mapValues write).map fun e => (.str e.1, e.2)) := by
      rw [Table.mapValues, List.map_map]
      rfl
    have hkeys : ((t.mapValues write).map fun e => (Value.str e.1, e.2)).map
        (fun e => (Value.str e.1.key, e.2)) = (t.mapValues write).map fun e => (.str e.1, e.2) :=
      List.map_map ..
    have hmapped : (t.mapValues write).Distinct := by
      have hnames : (t.mapValues write).names = t.names := List.map_map ..
      rw [Table.Distinct, hnames]
      exact hdistinct
    rw [beq_iff_eq.mp hname, h, Option.join_some, Option.map_some, hvalue, coded,
      if_pos (beq_self_eq_true _), hkeys, Table.mapOf_of_distinct hmapped]
  · have hid : coded name = id := funext fun v => if_neg hname
    rw [hid]
    exact Option.map_id_apply

/-- Responses that are written under texts keep their keys. -/
theorem IsWritten.withCodes {write : α → Value} {t : Table α} (hdistinct : t.Distinct)
    (h : Table.get? "responses" rows = some (some (Value.ofTable write t))) :
    ∃ f', Response.withCodes f = .ok f' ∧ f'.IsWritten annotations rows := by
  refine ⟨_, withCodes_eq_ok.mpr ⟨fun es hes e he => ?_, rfl⟩, hf.nameCodes hdistinct h⟩
  rw [hf.entries, h] at hes
  obtain rfl := Value.map.inj (Option.some.inj hes)
  obtain ⟨_, -, rfl⟩ := List.mem_map.mp he
  rfl

/-- No entry is a facet. -/
theorem IsWritten.collectFacets {es : List (Value × Value)} (known : List String)
    (hknown : ∀ n ∈ rows.map Prod.fst, known.contains n = true)
    (hfacets : Table.get? "facets" rows = some (some (.map es))) :
    ∃ f', f.collectFacets known = .ok f' ∧ f'.IsWritten annotations rows := by
  have hall : ∀ e ∈ f.entries, known.contains e.1 = true := fun e he => hknown _ (hf.mem_names he)
  have hown : mappingOf "facets" (f.entries.get? "facets") = .ok es := by
    rw [hf.entries, hfacets]
    rfl
  -- every name is known, so nothing else is gathered
  have hrest : f.entries.filter (fun e => !known.contains e.1) = [] := by
    rw [List.filter_eq_nil_iff]
    intro e he
    rw [hall e he]
    decide
  have hkept : f.entries.filter (fun e => known.contains e.1) = f.entries :=
    List.filter_eq_self.mpr hall
  have hread : f.collectFacets known =
      .ok { f with entries := Table.set "facets" (.map es) (Table.erase "facets" f.entries) } := by
    rw [Fields.collectFacets, hown]
    refine congrArg Except.ok ?_
    simp only [hrest, hkept, List.foldl_nil]
  refine ⟨_, hread, ⟨hf.annotations, fun name => ?_⟩⟩
  by_cases hname : name = "facets"
  · rw [hname, Table.get?_set_self, hfacets]
    rfl
  · rw [Table.get?_set_of_ne hname, Table.erase, Table.get?_filter (p := fun n => n != "facets"),
      if_pos (by simpa using hname), hf.entries]

/-- No entry has a key that is gathered. -/
theorem IsWritten.gather {key : String → Option String}
    (hkey : ∀ n ∈ rows.map Prod.fst, key n = none) (own : List (Value × Value)) :
    Fields.gather key own f.entries = own := by
  have hnone : ∀ e ∈ f.entries, key e.1 = none := fun e he => hkey _ (hf.mem_names he)
  clear hf
  obtain ⟨entries, _⟩ := f
  rw [Fields.gather]
  induction entries with
  | nil => rfl
  | cons e es ih =>
    rw [List.forall_mem_cons] at hnone
    rw [List.foldl_cons, hnone.1]
    exact ih hnone.2

/-- Entries that are put at the end are found there, and all others where they were. -/
theorem IsWritten.moved {rows' : Rows} (names : List String) (isKey : String → Bool)
    (moved : Table Value) (hkey : ∀ n ∈ rows.map Prod.fst, isKey n = false)
    (hmoved : ∀ n ∈ names, (Table.get? n rows').join = Table.get? n moved)
    (hother : ∀ n, n ∉ names →
      (Table.get? n rows').join = (Table.get? n rows).join ∧ Table.get? n moved = none) :
    IsWritten annotations rows'
      { f with entries := Fields.without names isKey f.entries ++ moved } := by
  have hwithout : Fields.without names isKey f.entries =
      f.entries.filter fun e => !names.contains e.1 := by
    refine List.filter_congr fun e he => ?_
    rw [hkey _ (hf.mem_names he), Bool.not_false, Bool.and_true]
  refine ⟨hf.annotations, fun name => ?_⟩
  rw [hwithout, Table.get?_append, Table.get?_filter (p := fun n => !names.contains n), hf.entries]
  by_cases hname : name ∈ names
  · rw [if_neg (by simpa using hname), Option.none_or, hmoved name hname]
  · rw [if_pos (by simpa using hname), (hother name hname).2, Option.or_none,
      (hother name hname).1]

end Arranged

end Fields

/-! ## Entities -/

namespace EntityForm

variable (form : EntityForm α)

/-- The entries that the node of an entity stands for. -/
def entriesOf? : Value → Option (List (Value × Value))
  | .null => some []
  | .map es => some es
  | .str s => form.shorthand s
  | _ => none

/-- The fields among the entries of an entity, where they belong. -/
def fieldsOf? (es : List (Value × Value)) : Option Fields :=
  ((Fields.ofEntries es).bind form.arrange).toOption

/-- The fields of the node of an entity. -/
def fields? (v : Value) : Option Fields := (form.entriesOf? v).bind form.fieldsOf?

variable {form} {a : α}

theorem ofEntries_eq_good {es : List (Value × Value)} :
    form.ofEntries es = .good a ↔ ∃ f, form.fieldsOf? es = some f ∧ form.fields f = .good a := by
  rw [ofEntries, fieldsOf?]
  cases (Fields.ofEntries es).bind form.arrange with
  | error m => simp [Except.toOption, Checked.fail]
  | ok f => simp [Except.toOption]

/-- A form reads a value by its fields. -/
theorem read_eq_good {v : Value} :
    form.read v = .good a ↔ ∃ f, form.fields? v = some f ∧ form.fields f = .good a := by
  rw [fields?]
  cases v with
  | null => exact ofEntries_eq_good
  | map es => exact ofEntries_eq_good
  | str s =>
    rw [read, entriesOf?]
    cases form.shorthand s with
    | none => simp [Checked.fail]
    | some es => exact ofEntries_eq_good
  | _ => simp [read, entriesOf?, Checked.fail]

section Record

variable {annotations : Table Value} {rows : Rows}
  (hplain : Fields.ArePlain (rows.map Prod.fst))
  (h : ∀ f, f.IsWritten annotations rows →
    ∃ f', form.arrange f = .ok f' ∧ form.fields f' = .good a)

include hplain h

/-- An entity is read from its annotations and rows if it is from the fields in them. -/
theorem ofEntries_record :
    form.ofEntries ((.str "annotations", .map (annotations.map fun e => (.str e.1, e.2))) ::
      rows.entries) = .good a := by
  obtain ⟨f, hf, hwritten⟩ := Fields.ofEntries_written hplain
  obtain ⟨f', hf', hread⟩ := h f hwritten
  refine ofEntries_eq_good.mpr ⟨f', ?_, hread⟩
  rw [fieldsOf?, hf, Except.bind, hf', Except.toOption]

/-- What was written as a record is read again. -/
theorem read_record :
    form.read (Value.record (("annotations", some (FreeForm.table id annotations)) :: rows)) =
      .good a :=
  ofEntries_record hplain h

end Record

end EntityForm

end Raml
