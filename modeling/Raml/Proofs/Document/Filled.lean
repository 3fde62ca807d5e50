import Raml.Proofs.Document.Texts
import Raml.Proofs.Outcome
import Raml.Proofs.Shape.Reading
import Raml.Proofs.Table
import Raml.Proofs.Template.Fill
import Raml.Proofs.Value.Mapping

/-!
# Nodes filled in altogether

A text is covered by the values of an application if every placeholder in it has one and all else in
it is plain: then no angle bracket is left when it is filled in. A node is filled in text by text,
except for the members of its sets and pairs. Reading it as a shape puts the keys of its mappings in
the place of names, and a key that is no text is shown there in its literal form (`NameIsFilled`).
-/

namespace Raml

open Template (Dictionary Segment NoAngle)

namespace Template

/-- Whether a segment leaves no angle bracket when it is filled in: a character that is none, or a
placeholder with a value that has none in it. -/
def Segment.isCovered (d : Dictionary) : Segment → Bool
  | .char c => isInner c
  | .hole inner =>
    match parts inner with
    | [] => false
    | name :: inflectors =>
      match d.get? name with
      | none => false
      | some value =>
        match inflectAll value.yamlText inflectors with
        | .ok s => decide (NoAngle s.toList)
        | .error _ => true

/-- Whether a text leaves no angle bracket when it is filled in. -/
def IsCovered (d : Dictionary) (s : String) : Prop :=
  ∀ segment ∈ segments s.toList, segment.isCovered d = true

instance (d : Dictionary) (s : String) : Decidable (IsCovered d s) :=
  inferInstanceAs (Decidable (∀ segment ∈ segments s.toList, segment.isCovered d = true))

variable {d : Dictionary} {s t : String}

/-- A hole that is covered leaves no angle bracket behind. -/
theorem Segment.noAngle_fill {segment : Segment} {cs : List Char}
    (h : segment.isCovered d = true) (hcs : segment.fill d = .ok cs) : NoAngle cs := by
  cases segment with
  | char c =>
    obtain rfl := Except.ok.inj hcs
    rw [Segment.isCovered, isInner, Bool.and_eq_true, bne_iff_ne, bne_iff_ne] at h
    exact noAngle_cons.mpr ⟨h, noAngle_nil⟩
  | hole inner =>
    rw [Segment.fill] at hcs
    rw [Segment.isCovered] at h
    split at h
    · cases h
    · rename_i name inflectors hparts
      simp only [hparts] at hcs
      split at h
      · cases h
      · rename_i value hvalue
        simp only [hvalue] at hcs
        obtain ⟨-, hcs⟩ := ite_error_eq_ok.mp hcs
        obtain ⟨s, hs, rfl⟩ := map_eq_ok.mp hcs
        simpa [hs] using h

/-- A text whose holes are all covered is filled in without angle brackets. -/
theorem noAngle_fillAll {ss : List Segment} {cs : List Char}
    (h : ∀ segment ∈ ss, segment.isCovered d = true) (hcs : fillAll d ss = .ok cs) :
    NoAngle cs := by
  induction ss generalizing cs with
  | nil => exact Except.ok.inj hcs ▸ noAngle_nil
  | cons s ss ih =>
    rw [List.forall_mem_cons] at h
    obtain ⟨here, hhere, hcs⟩ := bind_eq_ok.mp hcs
    obtain ⟨there, hthere, hcs⟩ := bind_eq_ok.mp hcs
    rw [← pure_eq_ok.mp hcs, noAngle_append]
    exact ⟨Segment.noAngle_fill h.1 hhere, ih h.2 hthere⟩

/-- A covered text has no angle brackets when it is filled in. -/
theorem IsCovered.noAngle (h : IsCovered d s) (ht : instantiate d s = .ok t) :
    NoAngle t.toList := by
  obtain ⟨cs, hcs, rfl⟩ := map_eq_ok.mp ht
  rw [String.toList_ofList]
  exact noAngle_fillAll h hcs

end Template

open Template (IsCovered)

/-! ## Nodes -/

mutual

/-- Whether the texts of a node are filled in, except for the members of its sets and pairs. -/
def Value.IsFilled : Value → Prop
  | .str s => NoAngle s.toList
  | .list items => ItemsAreFilled items
  | .map entries => EntriesAreFilled entries
  | _ => True

/-- Whether the texts of several nodes are filled in. -/
def Value.ItemsAreFilled : List Value → Prop
  | [] => True
  | v :: rest => v.IsFilled ∧ ItemsAreFilled rest

/-- Whether the texts in the entries of a mapping are filled in, those of the keys included. -/
def Value.EntriesAreFilled : List (Value × Value) → Prop
  | [] => True
  | (k, v) :: rest => k.IsFilled ∧ v.IsFilled ∧ EntriesAreFilled rest

end

namespace Value

variable {d : Dictionary}

/-- Entries are filled if their keys and values are. -/
theorem entriesAreFilled_iff {entries : List (Value × Value)} :
    EntriesAreFilled entries ↔ ∀ e ∈ entries, e.1.IsFilled ∧ e.2.IsFilled := by
  induction entries with
  | nil => simp [EntriesAreFilled]
  | cons e entries ih =>
    obtain ⟨k, v⟩ := e
    rw [EntriesAreFilled, List.forall_mem_cons, ih, ← and_assoc]

theorem forall_mem_textsOfEntries {C : String → Prop} {entries : List (Value × Value)} :
    (∀ s ∈ textsOfEntries entries, C s) ↔
      ∀ e ∈ entries, (∀ s ∈ e.1.texts, C s) ∧ ∀ s ∈ e.2.texts, C s := by
  induction entries with
  | nil => simp [textsOfEntries]
  | cons e entries ih =>
    obtain ⟨k, v⟩ := e
    rw [textsOfEntries, List.forall_mem_append, List.forall_mem_append, List.forall_mem_cons, ih]

theorem textsOfEntries_append (xs ys : List (Value × Value)) :
    textsOfEntries (xs ++ ys) = textsOfEntries xs ++ textsOfEntries ys := by
  induction xs with
  | nil => rfl
  | cons x xs ih =>
    obtain ⟨k, v⟩ := x
    simp only [List.cons_append, textsOfEntries, ih, List.append_assoc]

mutual

/-- A covered node is filled in when it is expanded. -/
theorem isFilled_of_expand : ∀ {v v' : Value}, Template.expand d v = .ok v' →
    (∀ s ∈ v.texts, IsCovered d s) → v'.IsFilled
  | .str s, _, h, hcov => by
      obtain ⟨t, ht, rfl⟩ := map_eq_ok.mp h
      exact (hcov s (List.mem_singleton_self _)).noAngle ht
  | .list _, _, h, hcov => by
      obtain ⟨items', hitems, rfl⟩ := map_eq_ok.mp h
      exact itemsAreFilled_of_expand hitems hcov
  | .map _, _, h, hcov => by
      obtain ⟨entries', hentries, rfl⟩ := map_eq_ok.mp h
      have hfilled := entriesAreFilled_iff.mp (entriesAreFilled_of_expand hentries hcov)
      exact entriesAreFilled_iff.mpr (forall_mem_mapOf (K := IsFilled) (V := IsFilled) hfilled)
  | .pair _ _, _, h, _ | .set _, _, h, _ | .null, _, h, _ | .bool _, _, h, _ | .int _, _, h, _
  | .float _, _, h, _ | .bytes _, _, h, _ | .moment _, _, h, _ => Except.ok.inj h ▸ trivial

theorem itemsAreFilled_of_expand : ∀ {items items' : List Value},
    Template.expandItems d items = .ok items' → (∀ s ∈ textsOfItems items, IsCovered d s) →
      ItemsAreFilled items'
  | [], _, h, _ => Except.ok.inj h ▸ trivial
  | v :: rest, _, h, hcov => by
      obtain ⟨v', hv, h⟩ := bind_eq_ok.mp h
      obtain ⟨rest', hrest, h⟩ := bind_eq_ok.mp h
      obtain rfl := pure_eq_ok.mp h
      rw [textsOfItems, List.forall_mem_append] at hcov
      exact ⟨isFilled_of_expand hv hcov.1, itemsAreFilled_of_expand hrest hcov.2⟩

theorem entriesAreFilled_of_expand : ∀ {entries entries' : List (Value × Value)},
    Template.expandEntries d entries = .ok entries' →
      (∀ s ∈ textsOfEntries entries, IsCovered d s) → EntriesAreFilled entries'
  | [], _, h, _ => Except.ok.inj h ▸ trivial
  | (k, v) :: rest, _, h, hcov => by
      obtain ⟨k', hk, h⟩ := bind_eq_ok.mp h
      obtain ⟨v', hv, h⟩ := bind_eq_ok.mp h
      obtain ⟨rest', hrest, h⟩ := bind_eq_ok.mp h
      obtain rfl := pure_eq_ok.mp h
      rw [textsOfEntries, List.forall_mem_append, List.forall_mem_append] at hcov
      exact ⟨isFilled_of_expand hk hcov.1.1, isFilled_of_expand hv hcov.1.2,
        entriesAreFilled_of_expand hrest hcov.2⟩

end

end Value

/-! ## Shapes -/

/-- Whether a name in a shape is filled in. A key that is no text is shown in its literal form, of
which nothing is known. -/
def Shape.NameIsFilled (s : String) : Prop :=
  NoAngle s.toList ∨ ∃ key : Value, (∀ t, key ≠ .str t) ∧ s = key.display

mutual

/-- Whether the texts of a shape are filled in. -/
def Shape.IsFilled : Shape → Prop
  | .scalar text => NoAngle text.toList
  | .reference name => NoAngle name.toList
  | .array element => element.IsFilled
  | .inline type properties items facets =>
    OptionIsFilled type ∧ PropertiesAreFilled properties ∧ OptionIsFilled items ∧
      ∀ f ∈ facets, NameIsFilled f.1 ∧ f.2.IsFilled

/-- Whether the texts of a shape are filled in, if there is one. -/
def Shape.OptionIsFilled : Option Shape → Prop
  | none => True
  | some shape => shape.IsFilled

/-- Whether the names and the texts of properties are filled in. -/
def Shape.PropertiesAreFilled : List (String × Shape) → Prop
  | [] => True
  | (name, shape) :: rest => NameIsFilled name ∧ shape.IsFilled ∧ PropertiesAreFilled rest

end

namespace Shape

variable {d : Dictionary}

theorem optionIsFilled_iff {o : Option Shape} : OptionIsFilled o ↔ ∀ s ∈ o, s.IsFilled := by
  cases o with
  | none => exact iff_of_true trivial nofun
  | some s => simp [OptionIsFilled]

/-- Properties are filled if their names and their shapes are. -/
theorem propertiesAreFilled_iff {ps : List (String × Shape)} :
    PropertiesAreFilled ps ↔ ∀ e ∈ ps, NameIsFilled e.1 ∧ e.2.IsFilled := by
  induction ps with
  | nil => simp [PropertiesAreFilled]
  | cons e ps ih =>
    obtain ⟨name, shape⟩ := e
    rw [PropertiesAreFilled, List.forall_mem_cons, ih, ← and_assoc]

theorem isFilled_empty : empty.IsFilled := ⟨trivial, trivial, trivial, List.forall_mem_nil _⟩

/-- A key that is filled in has a name that is. -/
theorem nameIsFilled_display {key : Value} (h : key.IsFilled) : NameIsFilled key.display := by
  cases key with
  | str s => exact .inl h
  | _ =>
    refine .inr ⟨_, fun t h => ?_, rfl⟩
    cases h

/-- What holds of the texts of a shape holds of the text that is written for it. -/
theorem forall_render {C : String → Prop} (hC : Template.IsLocal C) :
    ∀ s : Shape, (∀ t ∈ s.texts, C t) → C s.render
  | .scalar text, h => h text (List.mem_singleton_self _)
  | .reference name, h => h name (List.mem_singleton_self _)
  | .array element, h => by
      have he : C element.render := forall_render hC element h
      rw [render]
      split
      · exact hC.between _ _ _ (by decide) (by decide) he
      · simpa using hC.between "" _ "[]" (by decide) (by decide) he
  | .inline (some type) _ _ _, h => by
      simp only [texts, textsOfOption, List.forall_mem_append] at h
      exact forall_render hC type h.1.1.1
  | .inline none properties _ _, _ => by
      rw [render]
      split <;> exact hC.plain _ (by decide)

section Written

variable {C : String → Prop}

/-- What holds of the texts in the facets holds of them once they stand among the entries. -/
theorem forall_facets {facets : List (String × Value)} {entries : List (Value × Value)}
    (hfacets : ∀ t ∈ Table.texts Value.texts facets, C t)
    (h : ∀ t ∈ Value.textsOfEntries entries, C t) :
    ∀ t ∈ Value.textsOfEntries
      (facets.foldl (fun entries f => Value.insert (.str f.1) f.2 entries) entries), C t := by
  rw [Value.forall_mem_textsOfEntries] at h ⊢
  refine Value.forall_mem_foldl_insert_str h fun f hf => ?_
  have htexts : ∀ t ∈ f.1 :: f.2.texts, C t := fun t ht =>
    hfacets t (List.mem_flatMap.mpr ⟨f, hf, ht⟩)
  rw [List.forall_mem_cons] at htexts
  exact ⟨List.forall_mem_singleton.mpr htexts.1, htexts.2⟩

mutual

/-- What holds of the texts of a shape holds of those of the node that is written for it. -/
theorem forall_toValue (hC : Template.IsLocal C) :
    ∀ s : Shape, (∀ t ∈ s.texts, C t) → ∀ t ∈ s.toValue.texts, C t
  | .scalar text, h => h
  | .reference name, h => h
  | .array element, h => by
      have htype : C "type" := hC.plain _ (by decide)
      have harray : C "array" := hC.plain _ (by decide)
      have hitems : C "items" := hC.plain _ (by decide)
      rw [toValue]
      -- an array of a declaration is written out, and another one as a text
      split
      · simpa [Value.texts, Value.textsOfEntries, htype, harray, hitems] using
          forall_toValue hC element h
      · exact List.forall_mem_singleton.mpr (forall_render hC (.array element) h)
  | .inline type properties items facets, h => by
      simp only [texts, List.forall_mem_append] at h
      obtain ⟨⟨⟨htype, hprops⟩, hitems⟩, hfacets⟩ := h
      rw [toValue]
      refine forall_facets hfacets ?_
      rw [Value.textsOfEntries_append, Value.textsOfEntries_append, List.forall_mem_append,
        List.forall_mem_append]
      refine ⟨⟨forall_optionEntry hC (hC.plain _ (by decide)) type htype, ?_⟩,
        forall_optionEntry hC (hC.plain _ (by decide)) items hitems⟩
      split
      · exact List.forall_mem_nil _
      · have hname : C "properties" := hC.plain _ (by decide)
        simpa [Value.texts, Value.textsOfEntries, hname] using forall_entriesOf hC properties hprops

/-- What holds of the texts of a shape holds of them when it is an entry. -/
theorem forall_optionEntry (hC : Template.IsLocal C) {name : String} (hname : C name) :
    ∀ s : Option Shape, (∀ t ∈ textsOfOption s, C t) →
      ∀ t ∈ Value.textsOfEntries (optionEntry name s), C t
  | none, _ => List.forall_mem_nil _
  | some shape, h => by
      simpa [optionEntry, Value.textsOfEntries, Value.texts] using
        And.intro hname (forall_toValue hC shape h)

theorem forall_entriesOf (hC : Template.IsLocal C) :
    ∀ ps : List (String × Shape), (∀ t ∈ textsOfProperties ps, C t) →
      ∀ t ∈ Value.textsOfEntries (entriesOf ps), C t
  | [], _ => List.forall_mem_nil _
  | (name, shape) :: rest, h => by
      rw [textsOfProperties, List.cons_append, List.forall_mem_cons, List.forall_mem_append] at h
      rw [entriesOf, Value.textsOfEntries, List.forall_mem_append, List.forall_mem_append]
      exact ⟨⟨List.forall_mem_singleton.mpr h.1, forall_toValue hC shape h.2.1⟩,
        forall_entriesOf hC rest h.2.2⟩

end

end Written

theorem dropAround_sublist (cs : List Char) :
    (Text.dropAround Text.isBlank cs).Sublist cs := by
  rw [Text.dropAround, Text.dropEnd, ← List.reverse_sublist, List.reverse_reverse]
  exact (List.dropWhile_sublist _).trans (List.reverse_sublist.mpr (List.dropWhile_sublist _))

/-- A text without angle brackets is read as a type that has none either. -/
theorem isFilled_ofChars {cs : List Char} (h : NoAngle cs) : (Expression.ofChars cs).IsFilled := by
  fun_induction Expression.ofChars cs with
  | case1 cs _ => simpa [IsFilled] using h
  | case2 cs _ expr _ ih =>
    exact ih (h.sublist ((List.take_sublist _ _).trans (dropAround_sublist cs)))
  | case3 cs _ expr _ _ ih =>
    exact ih (h.sublist (((List.dropLast_sublist _).trans (List.tail_sublist _)).trans
      (dropAround_sublist cs)))
  | case4 cs _ expr => simpa [IsFilled] using h.sublist (dropAround_sublist cs)
  | case5 cs _ expr => simpa [IsFilled] using h.sublist (dropAround_sublist cs)

/-- Whether what a node is read as is filled in. -/
structure Reading.IsFilled (r : Reading) : Prop where
  shape : ∀ s, r.shape = .ok s → s.IsFilled
  properties : ∀ es, r.properties = some es →
    ∀ e ∈ es, NameIsFilled e.1 ∧ ∀ s, e.2 = .ok s → s.IsFilled

/-- Whether an entry that is read is filled in: its name, its node and what that is read as. -/
def EntryIsFilled (e : String × Value × Reading) : Prop :=
  NameIsFilled e.1 ∧ e.2.1.IsFilled ∧ e.2.2.IsFilled

/-- A declaration is filled in if the entries are that it is read from. -/
theorem isFilled_of_inlineOf {entries : List (String × Value × Reading)} {s : Shape}
    (h : ∀ e ∈ entries, EntryIsFilled e) (hs : inlineOf entries = .ok s) : s.IsFilled := by
  have ht := Table.forall_mem_ofEntries h
  obtain ⟨type, properties, items, facets, rfl, hparts⟩ := isDeclared_of_inlineOf hs
  -- a part was read of an entry
  have hoption : ∀ (name : String) (o : Option Shape), (∀ s ∈ o, ∃ e ∈ Table.ofEntries entries,
      e.1 = name ∧ e.2.2.shape = .ok s) → OptionIsFilled o := by
    intro name o ho
    refine optionIsFilled_iff.mpr fun s hs => ?_
    obtain ⟨e, he, -, hshape⟩ := ho s hs
    exact (ht e he).2.2.shape s hshape
  refine ⟨hoption _ type hparts.type, ?_, hoption _ items hparts.items, fun f hf => ?_⟩
  · refine propertiesAreFilled_iff.mpr fun p hp => ?_
    obtain ⟨e, he, -, ps, hps, hmem⟩ := hparts.properties p hp
    have hfilled := (ht e he).2.2.properties ps hps _ hmem
    exact ⟨hfilled.1, hfilled.2 p.2 rfl⟩
  · obtain ⟨-, e, he, hname, hvalue⟩ := hparts.facets f hf
    exact ⟨hname ▸ (ht e he).1, hvalue ▸ (ht e he).2.1⟩

mutual

/-- What a node is read as is filled in if the node is. -/
theorem reading_isFilled : ∀ {v : Value}, v.IsFilled → (reading v).IsFilled
  | .str s, h => by
      refine ⟨fun shape hshape => ?_, nofun⟩
      obtain rfl := Except.ok.inj hshape
      split
      · exact isFilled_empty
      · exact isFilled_ofChars h
  | .map entries, h => by
      have hentries := readings_areFilled h
      refine ⟨fun s hs => isFilled_of_inlineOf hentries (inlineOf_of_reading hs),
        fun es hes e he => ?_⟩
      obtain ⟨f, hf, hname, hshape⟩ := mem_properties hes he
      exact ⟨hname ▸ (hentries f hf).1, fun s hs => (hentries f hf).2.2.shape s (hshape s hs)⟩
  | .null, _ => ⟨fun _ h => Except.ok.inj h ▸ isFilled_empty, nofun⟩
  | .list _, _ | .pair _ _, _ | .set _, _ => ⟨nofun, nofun⟩
  | .bool _, _ | .int _, _ | .float _, _ | .bytes _, _ | .moment _, _ => ⟨nofun, nofun⟩

theorem readings_areFilled : ∀ {entries : List (Value × Value)}, Value.EntriesAreFilled entries →
    ∀ e ∈ readings entries, EntryIsFilled e
  | [], _ => List.forall_mem_nil _
  | (_, _) :: _, h => List.forall_mem_cons.mpr
      ⟨⟨nameIsFilled_display h.1, h.2.1, reading_isFilled h.2.1⟩, readings_areFilled h.2.2⟩

end

end Shape
end Raml
