import Raml.Proofs.Document.Filled
import Raml.Shape.Qualify

/-!
# Facets and the fields beside them

A declaration is written as one mapping, its facets under their own names beside `type`,
`properties` and `items`. A template fills in the names too, so a facet may come to stand in the
place of one of these fields, and what it says need not be a type: then the declaration does not
read as a shape. `willBeShape_toValue` says that nothing else goes wrong. A shape that was read has
no facet under the name of a field (`facetsApart_of_ofValue`).
-/

namespace Raml.Shape

open Template (Dictionary)

/-! ## Names of facets -/

mutual

/-- The names of the facets in a shape, at every depth. -/
def facetNames : Shape → List String
  | .scalar _ => []
  | .reference _ => []
  | .array element => element.facetNames
  | .inline type properties items facets =>
    facetNamesOfOption type ++ facetNamesOfEntries properties ++ facetNamesOfOption items ++
      Table.names facets

/-- The names of the facets in a shape that may be missing. -/
def facetNamesOfOption : Option Shape → List String
  | none => []
  | some shape => shape.facetNames

/-- The names of the facets in properties. -/
def facetNamesOfEntries : List (String × Shape) → List String
  | [] => []
  | (_, shape) :: rest => shape.facetNames ++ facetNamesOfEntries rest

end

theorem facetNamesOfEntries_eq (ps : Table Shape) :
    facetNamesOfEntries ps = ps.flatMap fun e => e.2.facetNames := by
  induction ps with
  | nil => rfl
  | cons e ps ih => rw [facetNamesOfEntries, ih, List.flatMap_cons]

/-- Whether no facet stands under the name of a field. -/
def FacetsApart (names : List String) : Prop := ∀ n ∈ names, n ∉ fieldNames

/-- A type expression has no facets. -/
theorem facetNames_ofChars (cs : List Char) : (Expression.ofChars cs).facetNames = [] := by
  fun_induction Expression.ofChars cs with
  | case2 cs _ expr _ ih => exact ih
  | case3 cs _ expr _ _ ih => exact ih
  | _ => rfl

/-! ## Qualified names -/

mutual

/-- Qualifying leaves the facets as they are. -/
theorem facetNames_qualify (s : Scope) : ∀ shape : Shape,
    (shape.qualify s).facetNames = shape.facetNames
  | .scalar _ => rfl
  | .reference name => by
      rw [qualify, Scope.reference]
      split <;> rfl
  | .array element => facetNames_qualify s element
  | .inline type properties items facets => by
      rw [qualify, facetNames, facetNames, facetNames_qualifyOption s type,
        facetNames_qualifyEntries s properties, facetNames_qualifyOption s items]

/-- Qualifying leaves the names of facets alone. -/
theorem facetNames_qualifyOption (s : Scope) : ∀ o : Option Shape,
    facetNamesOfOption (qualifyOption s o) = facetNamesOfOption o
  | none => rfl
  | some shape => facetNames_qualify s shape

theorem facetNames_qualifyEntries (s : Scope) : ∀ ps : List (String × Shape),
    facetNamesOfEntries (qualifyEntries s ps) = facetNamesOfEntries ps
  | [] => rfl
  | (_, shape) :: rest => by
      rw [qualifyEntries, facetNamesOfEntries, facetNamesOfEntries, facetNames_qualify s shape,
        facetNames_qualifyEntries s rest]

end

/-! ## Shapes that were read -/

/-- Whether the facets of what a node is read as are apart from fields. -/
structure Reading.FacetsApart (r : Reading) : Prop where
  shape : ∀ s, r.shape = .ok s → Shape.FacetsApart s.facetNames
  properties : ∀ ps, r.properties = some ps →
    ∀ p ∈ ps, ∀ s, p.2 = .ok s → Shape.FacetsApart s.facetNames

theorem facetsApart_of_inlineOf {entries : List (String × Value × Reading)} {s : Shape}
    (h : ∀ e ∈ entries, e.2.2.FacetsApart) (hs : inlineOf entries = .ok s) :
    FacetsApart s.facetNames := by
  have ht := Table.forall_mem_ofEntries h
  obtain ⟨type, properties, items, facets, rfl, hparts⟩ := isDeclared_of_inlineOf hs
  -- a shape in one of the fields was read as such, and its facets are apart by then
  have hoption : ∀ (name : String) (o : Option Shape), (∀ s ∈ o, ∃ e ∈ Table.ofEntries entries,
      e.1 = name ∧ e.2.2.shape = .ok s) → FacetsApart (facetNamesOfOption o) := by
    intro name o ho
    cases o with
    | none => exact List.forall_mem_nil _
    | some s =>
      obtain ⟨e, he, -, hshape⟩ := ho s rfl
      exact (ht e he).shape s hshape
  rw [facetNames, facetNamesOfEntries_eq]
  simp only [FacetsApart, List.forall_mem_append]
  refine ⟨⟨⟨hoption _ type hparts.type, ?_⟩, hoption _ items hparts.items⟩, ?_⟩
  · intro n hn
    obtain ⟨p, hp, hn⟩ := List.mem_flatMap.mp hn
    obtain ⟨e, he, -, ps, hps, hmem⟩ := hparts.properties p hp
    exact (ht e he).properties ps hps _ hmem p.2 rfl n hn
  · intro n hn
    obtain ⟨f, hf, rfl⟩ := List.mem_map.mp hn
    exact (hparts.facets f hf).1

mutual

/-- What is read has no facet under the name of a field. -/
theorem reading_facetsApart : ∀ v : Value, (reading v).FacetsApart
  | .str s => by
      refine ⟨fun shape hshape => ?_, nofun⟩
      obtain rfl := Except.ok.inj hshape
      split
      · exact List.forall_mem_nil _
      · rw [ofText, facetNames_ofChars]
        exact List.forall_mem_nil _
  | .map entries => by
      have hentries := readings_facetsApart entries
      refine ⟨fun s hs => facetsApart_of_inlineOf hentries (inlineOf_of_reading hs),
        fun ps hps p hp s hs => ?_⟩
      obtain ⟨e, he, -, hshape⟩ := mem_properties hps hp
      exact (hentries e he).shape s (hshape s hs)
  | .null => ⟨fun _ h => Except.ok.inj h ▸ List.forall_mem_nil _, nofun⟩
  | .list _ | .pair _ _ | .set _ => ⟨nofun, nofun⟩
  | .bool _ | .int _ | .float _ | .bytes _ | .moment _ => ⟨nofun, nofun⟩

theorem readings_facetsApart : ∀ entries : List (Value × Value),
    ∀ e ∈ readings entries, e.2.2.FacetsApart
  | [] => List.forall_mem_nil _
  | (_, v) :: rest =>
    List.forall_mem_cons.mpr ⟨reading_facetsApart v, readings_facetsApart rest⟩

end

/-- A shape that was read from a value has its facets apart from its fields. -/
theorem facetsApart_of_ofValue {v : Value} {s : Shape} (h : ofValue v = .ok s) :
    FacetsApart s.facetNames :=
  (reading_facetsApart v).shape s h

/-! ## Shapes of a template -/

/-- Whether a facet does not come to stand in the place of a field when its name is filled in. -/
def staysFacet (d : Dictionary) (name : String) : Bool :=
  match Template.instantiate d name with
  | .ok n => !fieldNames.contains n
  | .error _ => true

/-- Whether a node stands for a shape. -/
def IsShape (v : Value) : Prop := ∃ s, ofValue v = .ok s

/-- What is known of an entry of a declaration: its key is a text, and what stands under the name of
a field can be read there, with names for properties that have texts. -/
structure Fits (e : Value × Value) : Prop where
  key : ∃ n, e.1 = .str n
  shape : e.1 = .str "type" ∨ e.1 = .str "items" → IsShape e.2
  properties : e.1 = .str "properties" → ∃ es, e.2 = .map es ∧
    ∀ e ∈ es, e.1.isShown = true ∧ IsShape e.2

theorem fits_of_facet {n : String} {v : Value} (h : n ∉ fieldNames) : Fits (.str n, v) := by
  simp only [fieldNames, List.mem_cons, List.not_mem_nil, or_false, not_or] at h
  refine ⟨⟨n, rfl⟩, ?_, ?_⟩ <;> simp [h]

theorem fits_of_shape {n : String} {v : Value} (h : n ≠ "properties") (hv : IsShape v) :
    Fits (.str n, v) :=
  ⟨⟨n, rfl⟩, fun _ => hv, fun heq => absurd (Value.str.inj heq) h⟩

theorem isShape_str (s : String) : IsShape (.str s) := ⟨_, rfl⟩

theorem optionalOf_ok {v : Value} (h : IsShape v) : ∃ o, optionalOf v (reading v) = .ok o := by
  obtain ⟨s, hs⟩ := h
  have hmap : ((reading v).shape.map some) = .ok (some s) := by
    rw [← ofValue, hs]
    rfl
  rw [optionalOf.eq_def]
  split
  · exact ⟨none, rfl⟩
  · split
    · exact ⟨none, rfl⟩
    · exact ⟨some s, hmap⟩
  · exact ⟨some s, hmap⟩

section Readings

variable {entries : List (Value × Value)} (h : ∀ e ∈ entries, Fits e)

include h

theorem fits_of_readings : ∀ e ∈ Table.ofEntries (readings entries),
    ∃ v, e.2 = (v, reading v) ∧ Fits (.str e.1, v) := by
  refine Table.forall_mem_ofEntries ?_
  rw [readings_eq, List.forall_mem_map]
  rintro ⟨key, v⟩ he
  obtain ⟨n, hn⟩ := (h _ he).key
  obtain rfl : key = .str n := hn
  refine ⟨v, rfl, ?_⟩
  rw [Value.display]
  exact h _ he

/-- The type and the items of an object are read, as far as they are shapes. -/
theorem optionalEntry_ok {name : String} (hname : name = "type" ∨ name = "items") :
    ∃ o, optionalEntry name (Table.ofEntries (readings entries)) = .ok o := by
  rw [optionalEntry]
  split
  · exact ⟨none, rfl⟩
  · rename_i v r hget
    obtain ⟨v', heq, hfits⟩ := fits_of_readings h _ (Table.mem_of_get? hget)
    obtain ⟨rfl, rfl⟩ := Prod.mk.inj heq
    exact optionalOf_ok (hfits.shape (hname.imp (congrArg _) (congrArg _)))

theorem properties_ok : ∃ found, propertyEntries (Table.ofEntries (readings entries)) = .ok found ∧
    ∃ properties, Table.mapValuesM id found = .ok properties := by
  rw [propertyEntries]
  split
  · exact ⟨[], rfl, [], rfl⟩
  · rename_i v r hget
    obtain ⟨v', heq, hfits⟩ := fits_of_readings h _ (Table.mem_of_get? hget)
    obtain ⟨rfl, rfl⟩ := Prod.mk.inj heq
    obtain ⟨es, rfl, hes⟩ := hfits.properties rfl
    rw [properties_reading]
    -- every property has a name and a shape
    have hgood : ∀ p ∈ es.map fun e =>
        (e.1.display, if e.1.isShown then (reading e.2).shape else .error .longNumber),
        ∃ s, id p.2 = .ok s ∧ True := by
      rw [List.forall_mem_map]
      intro e he
      obtain ⟨hkey, s, hs⟩ := hes e he
      exact ⟨s, (if_pos hkey).trans hs, trivial⟩
    obtain ⟨properties, hproperties, -⟩ :=
      Table.mapValuesM_of_forall (R := fun _ _ => True) hgood
    exact ⟨_, rfl, properties, hproperties⟩

/-- A mapping whose fields can be read is a declaration. -/
theorem isShape_map : IsShape (.map entries) := by
  obtain ⟨type, htype⟩ := optionalEntry_ok h (.inl rfl)
  obtain ⟨items, hitems⟩ := optionalEntry_ok h (.inr rfl)
  obtain ⟨found, hfound, properties, hproperties⟩ := properties_ok h
  have hshown : ∀ e ∈ entries, e.1.isShown = true := by
    intro e he
    obtain ⟨n, hn⟩ := (h e he).key
    rw [hn]
    rfl
  exact ⟨_, (shape_reading hshown).trans (bind_eq_ok.mpr ⟨found, hfound, bind_eq_ok.mpr
    ⟨type, htype, bind_eq_ok.mpr ⟨properties, hproperties, bind_eq_ok.mpr ⟨items, hitems, rfl⟩⟩⟩⟩)⟩

end Readings

/-! ### Filling in -/

variable {d : Dictionary}

/-- Every entry that comes of an expansion comes of one entry. -/
theorem of_mem_expandEntries {entries entries' : List (Value × Value)}
    (h : Template.expandEntries d entries = .ok entries') : ∀ e' ∈ entries',
      ∃ e ∈ entries, Template.expand d e.1 = .ok e'.1 ∧ Template.expand d e.2 = .ok e'.2 := by
  induction entries generalizing entries' with
  | nil => exact Except.ok.inj h ▸ List.forall_mem_nil _
  | cons e entries ih =>
    obtain ⟨k, v⟩ := e
    obtain ⟨k', hk, h⟩ := bind_eq_ok.mp h
    obtain ⟨v', hv, h⟩ := bind_eq_ok.mp h
    obtain ⟨rest, hrest, h⟩ := bind_eq_ok.mp h
    obtain rfl := pure_eq_ok.mp h
    refine List.forall_mem_cons.mpr ⟨⟨(k, v), List.mem_cons_self .., hk, hv⟩, fun e' he' => ?_⟩
    obtain ⟨e, he, hfilled⟩ := ih hrest e' he'
    exact ⟨e, List.mem_cons_of_mem _ he, hfilled⟩

/-- Whether an entry fits once it is filled in. -/
def WillFit (d : Dictionary) (e : Value × Value) : Prop :=
  ∀ k v, Template.expand d e.1 = .ok k → Template.expand d e.2 = .ok v → Fits (k, v)

/-- Whether a node stands for a shape once it is filled in. -/
def WillBeShape (d : Dictionary) (w : Value) : Prop :=
  ∀ v, Template.expand d w = .ok v → IsShape v

theorem willFit_field {n : String} {w : Value} (hn : Template.NoAngle n.toList)
    (h : ∀ v, Template.expand d w = .ok v → Fits (.str n, v)) : WillFit d (.str n, w) := by
  intro k v hk hv
  obtain ⟨n', hn', rfl⟩ := map_eq_ok.mp hk
  rw [Template.instantiate_of_noAngle hn] at hn'
  exact Except.ok.inj hn' ▸ h v hv

/-- A facet whose name stays one fits whatever its value becomes. -/
theorem willFit_facet {n : String} {w : Value} (hn : staysFacet d n = true) :
    WillFit d (.str n, w) := by
  intro k v hk _
  obtain ⟨n', hn', rfl⟩ := map_eq_ok.mp hk
  rw [staysFacet, hn'] at hn
  exact fits_of_facet (by simpa using hn)

theorem willBeShape_str (s : String) : WillBeShape d (.str s) := by
  intro v hv
  obtain ⟨t, -, rfl⟩ := map_eq_ok.mp hv
  exact isShape_str t

theorem willBeShape_map {entries : List (Value × Value)} (h : ∀ e ∈ entries, WillFit d e) :
    WillBeShape d (.map entries) := by
  intro v hv
  obtain ⟨entries', hentries, rfl⟩ := map_eq_ok.mp hv
  refine isShape_map (Value.forall_mem_mapOf_str fun e' he' => ?_)
  obtain ⟨e, he, hk, hv⟩ := of_mem_expandEntries hentries e' he'
  have hfits : Fits e' := h e he _ _ hk hv
  exact ⟨hfits.key, hfits⟩

mutual

/-- A shape of a template is one again when it is filled in, if its facets stay apart. -/
theorem willBeShape_toValue : ∀ s : Shape, (∀ n ∈ s.facetNames, staysFacet d n = true) →
    WillBeShape d s.toValue
  | .scalar text, _ => willBeShape_str text
  | .reference name, _ => willBeShape_str name
  | .array element, h => by
      rw [toValue]
      split
      · refine willBeShape_map ?_
        rw [List.forall_mem_cons, List.forall_mem_singleton]
        exact ⟨willFit_field (by decide) fun v hv => fits_of_shape (by decide)
            (willBeShape_str _ v hv),
          willFit_field (by decide) fun v hv => fits_of_shape (by decide)
            (willBeShape_toValue element h v hv)⟩
      · exact willBeShape_str _
  | .inline type properties items facets, h => by
      simp only [facetNames, List.forall_mem_append] at h
      obtain ⟨⟨⟨htype, hproperties⟩, hitems⟩, hfacets⟩ := h
      rw [toValue]
      -- the declared fields come first, and the facets after them
      refine willBeShape_map (Value.forall_mem_foldl_insert_str ?_ fun f hf =>
        willFit_facet (hfacets f.1 (List.mem_map_of_mem hf)))
      rw [List.forall_mem_append, List.forall_mem_append]
      refine ⟨⟨willFit_optionEntry (by decide) (by decide) type htype, ?_⟩,
        willFit_optionEntry (by decide) (by decide) items hitems⟩
      split
      · exact List.forall_mem_nil _
      · refine List.forall_mem_singleton.mpr (willFit_field (by decide) fun v hv => ?_)
        obtain ⟨entries, hentries, rfl⟩ := map_eq_ok.mp hv
        have hshapes : ∀ e ∈ Value.mapOf entries, e.1.isShown = true ∧ IsShape e.2 := by
          refine Value.forall_mem_mapOf (K := fun k => k.isShown = true) fun e' he' => ?_
          obtain ⟨e, he, hk, hv⟩ := of_mem_expandEntries hentries e' he'
          refine ⟨?_, willBeShape_entriesOf properties hproperties e he _ hv⟩
          rw [entriesOf_eq] at he
          obtain ⟨p, -, rfl⟩ := List.mem_map.mp he
          obtain ⟨n, -, hn⟩ := map_eq_ok.mp hk
          rw [← hn]
          rfl
        exact ⟨⟨_, rfl⟩, by simp, fun _ => ⟨_, rfl, hshapes⟩⟩

theorem willFit_optionEntry {name : String} (hname : Template.NoAngle name.toList)
    (hfield : name ≠ "properties") :
    ∀ o : Option Shape, (∀ n ∈ facetNamesOfOption o, staysFacet d n = true) →
      ∀ e ∈ optionEntry name o, WillFit d e
  | none, _ => List.forall_mem_nil _
  | some s, h => List.forall_mem_singleton.mpr (willFit_field hname fun v hv =>
      fits_of_shape hfield (willBeShape_toValue s h v hv))

/-- Properties become shapes, whatever is filled in. -/
theorem willBeShape_entriesOf :
    ∀ ps : List (String × Shape), (∀ n ∈ facetNamesOfEntries ps, staysFacet d n = true) →
      ∀ e ∈ entriesOf ps, WillBeShape d e.2
  | [], _ => List.forall_mem_nil _
  | (_, s) :: rest, h => by
      rw [facetNamesOfEntries, List.forall_mem_append] at h
      exact List.forall_mem_cons.mpr
        ⟨willBeShape_toValue s h.1, willBeShape_entriesOf rest h.2⟩

end

end Raml.Shape
