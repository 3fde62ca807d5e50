import Raml.Proofs.Outcome
import Raml.Proofs.Read.Checked
import Raml.Shape.Written

/-!
# What a declaration is read from

The shapes in a declaration are those of the entries `type`, `properties` and `items`, and all other
entries are its facets. `isDeclared_of_inlineOf` says so for whatever is read: the property at hand
then follows entry by entry.
-/

namespace Raml.Shape

/-- The names that are no facets. -/
def fieldNames : List String := ["type", "properties", "items"]

theorem readings_eq (es : List (Value × Value)) :
    readings es = es.map fun e => (e.1.display, e.2, reading e.2) := by
  induction es with
  | nil => rfl
  | cons e es ih => rw [readings, ih, List.map_cons]

theorem entriesOf_eq (ps : Table Shape) :
    entriesOf ps = ps.map fun e => (Value.str e.1, e.2.toValue) := by
  induction ps with
  | nil => rfl
  | cons e ps ih => rw [entriesOf, ih, List.map_cons]

/-- A mapping whose keys have texts is a declaration if its entries are one. -/
theorem shape_reading {entries : List (Value × Value)} (h : ∀ e ∈ entries, e.1.isShown = true) :
    (reading (.map entries)).shape = inlineOf (readings entries) :=
  if_pos (List.all_eq_true.mpr h)

/-- What a mapping was read as is the declaration that its entries are. -/
theorem inlineOf_of_reading {entries : List (Value × Value)} {s : Shape}
    (h : (reading (.map entries)).shape = .ok s) : inlineOf (readings entries) = .ok s :=
  (ite_error_eq_ok.mp h).2

/-- Properties are read one by one, under the texts of their keys. -/
theorem properties_reading (entries : List (Value × Value)) :
    (reading (.map entries)).properties = some (entries.map fun e =>
      (e.1.display, if e.1.isShown then (reading e.2).shape else .error .longNumber)) := by
  change some (List.zipWith propertyOf entries (readings entries)) = _
  rw [readings_eq, List.zipWith_map_right, List.zipWith_self]
  rfl

/-- A property that was read is what an entry under its name was read as. -/
theorem mem_properties {entries : List (Value × Value)} {ps : List (String × Except Fault Shape)}
    (h : (reading (.map entries)).properties = some ps) {p : String × Except Fault Shape}
    (hp : p ∈ ps) :
    ∃ e ∈ readings entries, p.1 = e.1 ∧ ∀ s, p.2 = .ok s → e.2.2.shape = .ok s := by
  rw [properties_reading] at h
  obtain rfl := Option.some.inj h
  obtain ⟨e, he, rfl⟩ := List.mem_map.mp hp
  exact ⟨_, readings_eq entries ▸ List.mem_map_of_mem he, rfl, fun s hs =>
    (ite_error_eq_ok.mp hs).2⟩

/-- Where the parts of a declaration come from. -/
structure IsDeclared (t : Table (Value × Reading)) (type : Option Shape) (properties : Table Shape)
    (items : Option Shape) (facets : Table Value) : Prop where
  distinctProperties : properties.Distinct
  distinctFacets : facets.Distinct
  type : ∀ s ∈ type, ∃ e ∈ t, e.1 = "type" ∧ e.2.2.shape = .ok s
  items : ∀ s ∈ items, ∃ e ∈ t, e.1 = "items" ∧ e.2.2.shape = .ok s
  properties : ∀ p ∈ properties, ∃ e ∈ t, e.1 = "properties" ∧
    ∃ ps, e.2.2.properties = some ps ∧ (p.1, .ok p.2) ∈ ps
  facets : ∀ f ∈ facets, f.1 ∉ fieldNames ∧ ∃ e ∈ t, e.1 = f.1 ∧ e.2.1 = f.2

section Parts

variable {t : Table (Value × Reading)}

/-- A shape in a place that may be left empty is what is read there. -/
theorem of_optionalOf {v : Value} {r : Reading} {s : Shape} (h : optionalOf v r = .ok (some s)) :
    r.shape = .ok s := by
  have hshape : r.shape.map some = .ok (some s) → r.shape = .ok s := by
    intro hmap
    obtain ⟨s', hs', hsome⟩ := map_eq_ok.mp hmap
    exact Option.some.inj hsome ▸ hs'
  rw [optionalOf.eq_def] at h
  split at h
  · cases h
  · split at h
    · cases h
    · exact hshape h
  · exact hshape h

/-- A field that was read stands among the entries. -/
theorem of_optionalEntry {name : String} {r : Option Shape} (h : optionalEntry name t = .ok r) :
    ∀ s ∈ r, ∃ e ∈ t, e.1 = name ∧ e.2.2.shape = .ok s := by
  rintro s rfl
  rw [optionalEntry] at h
  split at h
  · cases h
  · rename_i v reading hget
    exact ⟨_, Table.mem_of_get? hget, rfl, of_optionalOf h⟩

/-- Properties that were read stand in the field of that name. -/
theorem of_propertyEntries {found : List (String × Except Fault Shape)}
    (h : propertyEntries t = .ok found) :
    ∀ p ∈ found, ∃ e ∈ t, e.1 = "properties" ∧ ∃ ps, e.2.2.properties = some ps ∧ p ∈ ps := by
  intro p hp
  rw [propertyEntries] at h
  split at h
  · cases h
    cases hp
  · rename_i v r hget
    split at h
    · rename_i ps hps
      exact ⟨_, Table.mem_of_get? hget, rfl, ps, hps, Except.ok.inj h ▸ hp⟩
    · split at h
      · cases h
      · cases h
        cases hp

end Parts

/-- What entries are read as, if it is a shape, is a declaration of these entries. -/
theorem isDeclared_of_inlineOf {entries : List (String × Value × Reading)} {s : Shape}
    (h : inlineOf entries = .ok s) : ∃ type properties items facets,
      s = .inline type properties items facets ∧
        IsDeclared (Table.ofEntries entries) type properties items facets := by
  obtain ⟨found, hfound, h⟩ := bind_eq_ok.mp h
  obtain ⟨type, htype, h⟩ := bind_eq_ok.mp h
  obtain ⟨properties, hproperties, h⟩ := bind_eq_ok.mp h
  obtain ⟨items, hitems, h⟩ := bind_eq_ok.mp h
  refine ⟨_, _, _, _, (pure_eq_ok.mp h).symm, Table.distinct_ofEntries properties, ?_,
    of_optionalEntry htype, of_optionalEntry hitems, ?_, ?_⟩
  -- taking the three fields out leaves the facets distinct, as all entries were
  · have hnames : ∀ t : Table (Value × Reading), (t.mapValues Prod.fst).names = t.names :=
      fun t => List.map_map ..
    rw [Table.Distinct, hnames]
    exact Table.distinct_filter (Table.distinct_filter (Table.distinct_filter
      (Table.distinct_ofEntries entries)))
  · refine Table.forall_mem_ofEntries fun p hp => ?_
    obtain ⟨r, hr, hread⟩ := Table.of_mem_mapValuesM hproperties hp
    obtain ⟨e, he, hname, ps, hps, hmem⟩ := of_propertyEntries hfound _ hr
    exact ⟨e, he, hname, ps, hps, hread ▸ hmem⟩
  · -- a facet is what none of the three fields took
    intro f hf
    obtain ⟨⟨v, r⟩, hmem, hv⟩ := Table.of_mem_mapValues hf
    obtain ⟨hmem, hproperties⟩ := List.mem_filter.mp hmem
    obtain ⟨hmem, hitems⟩ := List.mem_filter.mp hmem
    obtain ⟨hmem, htype⟩ := List.mem_filter.mp hmem
    rw [bne_iff_ne] at htype hitems hproperties
    exact ⟨by simp [fieldNames, htype, hitems, hproperties], _, hmem, rfl, hv⟩

end Raml.Shape
