import Raml.Proofs.Document.Nodes

/-!
# Problems that are told

An integer can have too many figures for a text. Where a text is wanted such an integer ends the
reading, and what is wrong with the document is not told. A reader `Tells` if that does not happen
with values whose integers have texts: every reader does, since it asks for the text of no value but
those that it was given.

`EntityForm.Tells` is what an entity has to show for it: its fields are told if the values in them
have texts, and entries that are moved to the field that they belong to keep theirs.
-/

namespace Raml

/-! ## What is told -/

namespace Checked

variable {α β : Type}

/-- Whether what was read is good or all that is wrong with it can be told: none of it is that an
integer has no text. -/
def IsTold : Checked α → Prop
  | .good _ => True
  | .bad ps => ∀ p ∈ ps, p.what ≠ .longNumber

theorem isTold_fail {m : Mismatch} : (fail m : Checked α).IsTold ↔ m ≠ .longNumber := by
  simp [fail, IsTold]

theorem isTold_ofExcept {x : Except Mismatch α} :
    (ofExcept x).IsTold ↔ x ≠ .error .longNumber := by
  cases x with
  | ok a => simp [ofExcept, IsTold]
  | error m => simp [ofExcept, isTold_fail]

theorem isTold_map {f : α → β} {x : Checked α} : (x.map f).IsTold ↔ x.IsTold := by
  cases x <;> rfl

theorem isTold_functor {f : α → β} {x : Checked α} : (f <$> x).IsTold ↔ x.IsTold := isTold_map

/-- Both sides are read, so all is told if it is on each side. -/
theorem isTold_seq {f : Checked (α → β)} {x : Checked α} :
    (f <*> x).IsTold ↔ f.IsTold ∧ x.IsTold := by
  cases f <;> cases x <;> simp [Seq.seq, apply, IsTold, or_imp, forall_and]

theorem isTold_under {part : String} {x : Checked α} : (x.under part).IsTold ↔ x.IsTold := by
  cases x <;> simp [under, IsTold]

/-- Everything in a list is told if each of its items is. -/
theorem isTold_all {xs : List (Checked α)} (h : ∀ x ∈ xs, x.IsTold) : (all xs).IsTold := by
  induction xs with
  | nil => trivial
  | cons x xs ih =>
    rw [List.forall_mem_cons] at h
    exact isTold_seq.mpr ⟨isTold_functor.mpr h.1, ih h.2⟩

end Checked

/-! ## Values -/

namespace Value

theorem areShown_iff {items : List Value} :
    areShown items = true ↔ ∀ v ∈ items, v.isShown = true := by
  induction items with
  | nil => simp [areShown]
  | cons v items ih => rw [areShown, Bool.and_eq_true, ih, List.forall_mem_cons]

theorem entriesShown_iff {es : List (Value × Value)} :
    entriesShown es = true ↔ ∀ e ∈ es, e.1.isShown = true ∧ e.2.isShown = true := by
  induction es with
  | nil => simp [entriesShown]
  | cons e es ih =>
    rw [entriesShown, Bool.and_eq_true, Bool.and_eq_true, ih, List.forall_mem_cons]

theorem isShown_ofTable {t : Table Value} (h : ∀ e ∈ t, e.2.isShown = true) :
    (ofTable id t).isShown = true :=
  entriesShown_iff.mpr (List.forall_mem_map.mpr fun e he => ⟨rfl, h e he⟩)

theorem isShown_orEmpty {v : Value} (h : v.isShown = true) : v.orEmpty.isShown = true := by
  rw [orEmpty]
  split
  · exact h
  · rfl

end Value

/-! ## Readers -/

theorem textOfBytes_ne_longNumber (bs : List UInt8) : textOfBytes bs ≠ .error .longNumber := by
  unfold textOfBytes
  split <;> simp

/-- That it is too long is never why a value that can be shown has no text. -/
theorem readText_ne_longNumber {v : Value} (h : v.isShown = true) :
    readText v ≠ .error .longNumber := by
  cases v with
  | int n =>
    intro hn
    cases (if_pos h).symm.trans hn
  | bytes bs => exact textOfBytes_ne_longNumber bs
  | _ => nofun

theorem integerOfDouble_ne_longNumber (x : Float) : integerOfDouble x ≠ .error .longNumber := by
  rw [integerOfDouble.eq_def]
  split
  · rename_i b _
    dsimp only
    generalize (if b.negative then _ else _ : Int) = n
    split <;> nofun
  · nofun

/-- Reading an integer never asks for the text of one. -/
theorem readInteger_ne_longNumber (v : Value) : readInteger v ≠ .error .longNumber := by
  unfold readInteger readInteger.ofText
  repeat' split
  all_goals first | exact integerOfDouble_ne_longNumber _ | nofun

theorem readDouble_ne_longNumber (v : Value) : readDouble v ≠ .error .longNumber := by
  unfold readDouble readDouble.ofText
  dsimp only
  repeat' split
  all_goals nofun

theorem readTruth_ne_longNumber (v : Value) : readTruth v ≠ .error .longNumber := by
  unfold readTruth readTruth.ofText readTruth.ofInt
  repeat' split
  all_goals nofun

namespace Reader

open Checked

variable {α : Type} {read : Reader α}

/-- Whether a reader tells all that is wrong with a value whose integers have texts. -/
def Tells (read : Reader α) : Prop := ∀ v, v.isShown = true → (read v).IsTold

theorem tells_any : Tells any := fun _ _ => trivial

theorem tells_text : Tells text := fun _ h => isTold_ofExcept.mpr (readText_ne_longNumber h)

/-- A value that may hold a template is told if the value itself is. -/
theorem tells_templated {k : Kind α} (hk : ∀ v, k.read v ≠ .error .longNumber) :
    Tells (templated k) := by
  intro v h
  rw [templated]
  split
  · trivial
  -- both ways of reading have failed, so neither of them for want of a text
  · rename_i m n hread
    have hboth : k.read v = .error m ∧ readPlaceholder v = .error n := by
      rw [Kind.readTemplated] at hread
      split at hread
      · cases hread
      · split at hread
        · cases hread
        · cases hread
          exact ⟨by assumption, by assumption⟩
    have hm : m ≠ .longNumber := fun heq => hk v (heq ▸ hboth.1)
    have hn : n ≠ .longNumber := by
      rintro rfl
      rcases bind_eq_error.mp hboth.2 with htext | ⟨s, -, hrest⟩
      · exact readText_ne_longNumber h htext
      · split at hrest <;> cases hrest
    exact List.forall_mem_cons.mpr ⟨hm, List.forall_mem_singleton.mpr hn⟩

theorem tells_integer : Tells (templated .integer) := tells_templated readInteger_ne_longNumber

theorem tells_double : Tells (templated .double) := tells_templated readDouble_ne_longNumber

theorem tells_truth : Tells (templated .truth) := tells_templated readTruth_ne_longNumber

/-- A key without a text is a problem that is told, where a shape is read. -/
theorem tells_shape : Tells shape := by
  intro v _
  rw [shape]
  split
  · trivial
  · exact isTold_fail.mpr (by simp)

theorem tells_shape? : Tells shape? := by
  intro v _
  rw [shape?]
  split
  · trivial
  · exact isTold_fail.mpr (by simp)

/-- What items are read as is told if it is for each of them. -/
theorem isTold_items (hread : Tells read) {vs : List Value} (h : ∀ v ∈ vs, v.isShown = true)
    (place : Nat) : (items read place vs).IsTold := by
  induction vs generalizing place with
  | nil => trivial
  | cons v vs ih =>
    rw [List.forall_mem_cons] at h
    rw [items, isTold_seq, isTold_functor, isTold_under]
    exact ⟨hread v h.1, ih h.2 (place + 1)⟩

theorem Tells.list (hread : Tells read) : Tells (list read) := by
  intro v h
  cases v with
  | list vs => exact isTold_items hread (Value.areShown_iff.mp h) 0
  | set vs => exact isTold_items hread (Value.areShown_iff.mp h) 0
  | pair a b =>
    have hboth : a.isShown = true ∧ b.isShown = true := Bool.and_eq_true_iff.mp h
    exact isTold_items hread (List.forall_mem_cons.mpr
      ⟨hboth.1, List.forall_mem_singleton.mpr hboth.2⟩) 0
  | _ => exact isTold_fail.mpr (by simp)

theorem Tells.optional (hread : Tells read) : Tells (optional read) := by
  intro v h
  cases v with
  | null => trivial
  | _ => exact isTold_map.mpr (hread _ h)

theorem isTold_entry {key value : Value} (hkey : key.isShown = true) (h : (read value).IsTold) :
    (entry read key value).IsTold := by
  rw [entry, isTold_seq, isTold_functor, isTold_under, isTold_under, isTold_under]
  exact ⟨tells_text key hkey, h⟩

/-- What a table is read as is told if it is for its keys and values. -/
theorem Tells.table (hread : Tells read) : Tells (table read) := by
  intro v h
  cases v with
  | map es =>
    refine isTold_map.mpr (isTold_all (List.forall_mem_map.mpr fun e he => ?_))
    obtain ⟨hkey, hvalue⟩ := Value.entriesShown_iff.mp h e he
    exact isTold_entry hkey (hread e.2 hvalue)
  | _ => exact isTold_fail.mpr (by simp)

theorem Tells.map {β : Type} (hread : Tells read) (f : α → β) : Tells fun v => (read v).map f :=
  fun v h => isTold_map.mpr (hread v h)

end Reader

/-! ## Fields -/

namespace Fields

/-- Whether every integer in fields and annotations has a text. -/
structure AreShown (f : Fields) : Prop where
  entries : ∀ e ∈ f.entries, e.2.isShown = true
  annotations : (Value.map f.annotations).isShown = true

/-- What is found in the place of a mapping can be shown. -/
theorem isShown_of_mappingOf {name : String} {o : Option Value} {es : List (Value × Value)}
    (ho : ∀ v ∈ o, v.isShown = true) (h : mappingOf name o = .ok es) :
    (Value.map es).isShown = true := by
  rw [mappingOf.eq_def] at h
  split at h
  · cases h
    rfl
  · cases h
    rfl
  · cases h
    exact ho _ rfl
  · cases h

theorem mappingOf_ne_longNumber (name : String) (o : Option Value) :
    mappingOf name o ≠ .error .longNumber := by
  unfold mappingOf
  split <;> nofun

/-- What is done with a mapping that was looked up fails for want of a text only by itself. -/
theorem mappingOf_bind_ne_longNumber {α : Type} {name : String} {o : Option Value}
    {next : List (Value × Value) → Except Mismatch α} (h : ∀ es, next es ≠ .error .longNumber) :
    mappingOf name o >>= next ≠ .error .longNumber := by
  intro hfails
  rcases bind_eq_error.mp hfails with hlooks | ⟨es, -, hnext⟩
  · exact mappingOf_ne_longNumber name o hlooks
  · exact h es hnext

theorem checkKeys_ne_longNumber (es : List (Value × Value)) :
    checkKeys es ≠ .error .longNumber := by
  unfold checkKeys
  split <;> nofun

theorem AreShown.add {f : Fields} (hf : f.AreShown) {e : Value × Value} (he : e.2.isShown = true) :
    (f.add e).AreShown := by
  refine ⟨forall_mem_add he hf.entries, ?_⟩
  rw [Fields.add]
  split
  · exact Value.entriesShown_iff.mpr (Value.forall_mem_insert_str ⟨rfl, he⟩
      (Value.entriesShown_iff.mp hf.annotations))
  · split <;> exact hf.annotations

/-- Entries that can be shown are put into fields that can. -/
theorem areShown_of_ofEntries {es : List (Value × Value)} {f : Fields}
    (h : (Value.map es).isShown = true) (hf : ofEntries es = .ok f) : f.AreShown := by
  have hes := Value.entriesShown_iff.mp h
  obtain ⟨-, own, hown, rfl⟩ := ofEntries_eq_ok.mp hf
  have hstart : AreShown ⟨[], own⟩ := by
    refine ⟨List.forall_mem_nil _, isShown_of_mappingOf (fun v hv => ?_) hown⟩
    obtain ⟨e, he, rfl⟩ := Option.map_eq_some_iff.mp hv
    exact (hes e (List.mem_of_find?_eq_some he)).2
  have hfold : ∀ g : Fields, g.AreShown → (es.foldl add g).AreShown := by
    clear h hf hown hstart
    induction es with
    | nil => exact fun _ hg => hg
    | cons e es ih =>
      rw [List.forall_mem_cons] at hes
      exact fun g hg => ih hes.2 _ (hg.add hes.1.2)
  exact hfold _ hstart

/-- Putting entries into fields never asks for the text of a number. -/
theorem ofEntries_ne_longNumber (es : List (Value × Value)) :
    ofEntries es ≠ .error .longNumber := by
  intro h
  rcases bind_eq_error.mp h with h | ⟨_, -, h⟩
  · exact mappingOf_ne_longNumber _ _ h
  · rcases bind_eq_error.mp h with h | ⟨_, -, h⟩
    · exact checkKeys_ne_longNumber _ h
    · cases h

section Read

open Checked

variable {α : Type} {read : Reader α} {f : Fields} (hf : f.AreShown) (hread : read.Tells)

include hf

/-- Whatever is looked up among fields that can be shown can be shown. -/
theorem AreShown.get? {n : String} : ∀ v ∈ f.entries.get? n, v.isShown = true :=
  fun _ hv => hf.entries _ (Table.mem_of_get? hv)

theorem AreShown.annotationTable : f.annotationTable.IsTold :=
  isTold_under.mpr (Reader.tells_any.table _ hf.annotations)

include hread

theorem AreShown.required (name : String) : (f.required name read).IsTold := by
  rw [Fields.required]
  split
  · rename_i v hget
    exact isTold_under.mpr (hread v (hf.get? v hget))
  · exact isTold_under.mpr (isTold_fail.mpr (by simp))

theorem AreShown.withDefault (names : List String) (fallback : α) :
    (f.withDefault names fallback read).IsTold := by
  rw [Fields.withDefault]
  split
  · rename_i n v hfind
    have hmem := (mem_of_findSome? (fun _ _ h => h) hfind).1
    exact isTold_under.mpr (hread v (hf.entries _ hmem))
  · trivial

theorem AreShown.optional (names : List String) : (f.optional names read).IsTold :=
  hf.withDefault hread.optional names none

theorem AreShown.collection (names : List String) (empty : α) :
    (f.collection names empty read).IsTold := by
  rw [Fields.collection]
  split
  · rename_i n v hgiven
    have hmem := (mem_of_findSome? (fun _ _ h => (Option.filter_eq_some_iff.mp h).1) hgiven).1
    exact isTold_under.mpr (hread v (hf.entries _ hmem))
  · trivial

omit hread in
theorem AreShown.shape? (names : List String) : (f.shape? names).IsTold :=
  hf.withDefault Reader.tells_shape? names none

omit hread in
theorem AreShown.any (names : List String) : (f.any names).IsTold :=
  hf.withDefault Reader.tells_any names .null

end Read

/-! ### Entries that are moved -/

section Moved

variable {f f' : Fields} (hf : f.AreShown)

theorem isShown_wrapped {names : List String} {n : String} {v : Value} (h : v.isShown = true) :
    (wrapped names n v).isShown = true := by
  unfold wrapped
  split
  · split
    · rfl
    · exact Bool.and_eq_true_iff.mpr ⟨h, rfl⟩
    · exact h
  · exact h

theorem isShown_coded {n : String} {v : Value} (h : v.isShown = true) :
    (coded n v).isShown = true := by
  unfold coded
  split
  · split
    · refine Value.entriesShown_iff.mpr ?_
      refine Value.forall_mem_mapOf (K := fun k => Value.isShown k = true)
        (V := fun v => Value.isShown v = true) (List.forall_mem_map.mpr fun e he => ?_)
      exact ⟨rfl, (Value.entriesShown_iff.mp h e he).2⟩
    · exact h
  · exact h

theorem isShown_gather {key : String → Option String} {own : List (Value × Value)}
    {t : Table Value} (hown : (Value.map own).isShown = true) (ht : ∀ e ∈ t, e.2.isShown = true) :
    (Value.map (gather key own t)).isShown = true :=
  Value.entriesShown_iff.mpr (forall_mem_gather (Value.entriesShown_iff.mp hown)
    fun e he _ _ => ⟨rfl, Value.isShown_orEmpty (ht e he)⟩)

include hf

/-- A value that is wrapped into a list can be shown as before. -/
theorem AreShown.listify (names : List String) : (f.listify names).AreShown := by
  refine ⟨?_, hf.annotations⟩
  rw [entries_listify, List.forall_mem_map]
  exact fun e he => isShown_wrapped (hf.entries e he)

/-- Turning the keys of responses into texts leaves fields that can be shown. -/
theorem AreShown.withCodes (h : Response.withCodes f = .ok f') : f'.AreShown := by
  obtain ⟨-, rfl⟩ := withCodes_eq_ok.mp h
  refine ⟨?_, hf.annotations⟩
  rw [entries_nameCodes, List.forall_mem_map]
  exact fun e he => isShown_coded (hf.entries e he)

theorem AreShown.collectFacets {known : List String} (h : f.collectFacets known = .ok f') :
    f'.AreShown := by
  obtain ⟨own, hown, h⟩ := bind_eq_ok.mp h
  obtain rfl := pure_eq_ok.mp h
  refine ⟨Table.forall_mem_set (C := fun e => Value.isShown e.2 = true) (fun e he => ?_) ?_,
    hf.annotations⟩
  · exact hf.entries e (List.mem_filter.mp (List.mem_filter.mp he).1).1
  · refine Value.entriesShown_iff.mpr (Value.forall_mem_foldl_insert_str ?_ fun e he => ?_)
    · exact Value.entriesShown_iff.mp (isShown_of_mappingOf hf.get? hown)
    · exact ⟨rfl, hf.entries e (List.mem_filter.mp he).1⟩

end Moved

/-- Gathering the facets never asks for the text of a number. -/
theorem collectFacets_ne_longNumber (known : List String) (f : Fields) :
    f.collectFacets known ≠ .error .longNumber := by
  intro h
  rcases bind_eq_error.mp h with h | ⟨_, -, h⟩
  · exact mappingOf_ne_longNumber _ _ h
  · cases h

end Fields

/-! ## Entities -/

/-- Whether all that is wrong with an entity is told, if integers have texts. -/
structure EntityForm.Tells {α : Type} (form : EntityForm α) : Prop where
  shorthand : ∀ s es, form.shorthand s = some es → (Value.map es).isShown = true
  arrange : ∀ f f', f.AreShown → form.arrange f = .ok f' → f'.AreShown
  arranged : ∀ f, form.arrange f ≠ .error .longNumber
  fields : ∀ f, f.AreShown → (form.fields f).IsTold

namespace EntityForm

open Checked

variable {α : Type} {form : EntityForm α} (hform : form.Tells)

include hform

/-- A form that tells of its fields tells of entries that can be shown. -/
theorem Tells.ofEntries {es : List (Value × Value)} (h : (Value.map es).isShown = true) :
    (form.ofEntries es).IsTold := by
  rw [EntityForm.ofEntries]
  split
  · rename_i f' hf'
    obtain ⟨f, hf, hf'⟩ := bind_eq_ok.mp hf'
    exact hform.fields f' (hform.arrange f f' (Fields.areShown_of_ofEntries h hf) hf')
  · rename_i m hm
    refine isTold_fail.mpr ?_
    rintro rfl
    rcases bind_eq_error.mp hm with hm | ⟨f, -, hm⟩
    · exact Fields.ofEntries_ne_longNumber es hm
    · exact hform.arranged f hm

theorem Tells.read : Reader.Tells form.read := by
  intro v h
  cases v with
  | null => exact hform.ofEntries rfl
  | map es => exact hform.ofEntries h
  | str s =>
    rw [EntityForm.read]
    split
    · rename_i es hes
      exact hform.ofEntries (hform.shorthand s es hes)
    · exact isTold_fail.mpr (by simp)
  | _ => exact isTold_fail.mpr (by simp)

end EntityForm

end Raml
