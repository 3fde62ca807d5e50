import Raml.Proofs.Merge.Precedence
import Raml.Proofs.Normal.Entity

/-!
# What a template calls for

An entry of a template that is not optional is mandatory: what the template is merged into has it
afterwards, under its key with the placeholders filled in. No later merge takes a key away, and
neither does the normal form, so a method has in the end what any of its templates called for.

`Method.Provides` tells this for one template, and `Method.GrowsTo` for everything that can happen
to a method after it: `Provides.mono` is all that a run over several templates needs.
-/

namespace Raml

open Template (Dictionary)

/-! ## Keys -/

/-- The key of an entry with its placeholders filled in; it stays if nothing is left of it. -/
def Template.filledKey (d : Dictionary) (raw : String) : Except Template.Fault String :=
  (instantiate d raw).map fun s => if s.isEmpty then raw else s

/-- The key under which an entry has to be there, if it is not optional. -/
def Template.mandatory? (key : String) : Option String :=
  if Text.endsWith "\\?" key then some (Text.dropLast 2 key ++ "?")
  else if Text.endsWith "?" key then none
  else some key

/-- Whether a table has every mandatory entry of a template. -/
def Table.Provides {α : Type} (t : Table α) (d : Dictionary) (template : Table α) : Prop :=
  ∀ raw ∈ template.names, ∃ key, Template.filledKey d raw = .ok key ∧
    ∀ k, Template.mandatory? key = some k → k ∈ t.names

/-! ## Methods -/

/-- Whether a method has every mandatory entry of a template. -/
structure Method.Provides (m : Method) (d : Dictionary) (template : Method) : Prop where
  headers : m.headers.Provides d template.headers
  queryParameters : m.queryParameters.Provides d template.queryParameters
  responses : m.responses.Provides d template.responses

/-- What may become of a method: its name stays, and no entry loses its key. -/
structure Method.GrowsTo (m m' : Method) : Prop where
  name : m'.name = m.name
  headers : m.headers.names ⊆ m'.headers.names
  queryParameters : m.queryParameters.names ⊆ m'.queryParameters.names
  responses : m.responses.names ⊆ m'.responses.names

namespace Method

theorem growsTo_refl (m : Method) : m.GrowsTo m :=
  ⟨rfl, List.Subset.refl _, List.Subset.refl _, List.Subset.refl _⟩

/-- A method that grows twice grows. -/
theorem GrowsTo.trans {m m' m'' : Method} (h : m.GrowsTo m') (h' : m'.GrowsTo m'') :
    m.GrowsTo m'' :=
  ⟨h'.name.trans h.name, List.Subset.trans h.headers h'.headers,
    List.Subset.trans h.queryParameters h'.queryParameters,
    List.Subset.trans h.responses h'.responses⟩

theorem GrowsTo.verb {m m' : Method} (h : m.GrowsTo m') : m'.verb = m.verb :=
  congrArg Text.Unicode.toLower h.name

end Method

theorem Table.Provides.mono {α : Type} {d : Dictionary} {t t' template : Table α}
    (h : t.Provides d template) (hsub : t.names ⊆ t'.names) : t'.Provides d template := by
  intro raw hraw
  obtain ⟨key, hkey, hmem⟩ := h raw hraw
  exact ⟨key, hkey, fun k hk => hsub (hmem k hk)⟩

/-- A mandatory entry of a template is there under its key. -/
theorem Table.Provides.mem {α : Type} {d : Dictionary} {t template : Table α} {raw k : String}
    (h : t.Provides d template) (hraw : raw ∈ template.names)
    (hk : (Template.filledKey d raw).toOption.bind Template.mandatory? = some k) :
    k ∈ t.names := by
  obtain ⟨key, hkey, hmem⟩ := h raw hraw
  rw [hkey] at hk
  exact hmem k hk

/-- What a method has of a template stays when it grows. -/
theorem Method.Provides.mono {d : Dictionary} {m m' template : Method}
    (h : m.Provides d template) (hgrows : m.GrowsTo m') : m'.Provides d template :=
  ⟨h.headers.mono hgrows.headers, h.queryParameters.mono hgrows.queryParameters,
    h.responses.mono hgrows.responses⟩

namespace Merge

variable {app : Application}

theorem filledKey_of_name {raw key : String} (h : app.name raw = .ok key) :
    Template.filledKey app.dictionary raw = .ok key := by
  obtain ⟨s, hs, rfl⟩ := name_eq_ok.mp h
  exact map_eq_ok.mpr ⟨s, hs, rfl⟩

section Tables

variable {α : Type} {merge : α → α → Except Error α} {create : String → α} {c p r : Table α}

/-- A mandatory key goes to itself without the mark. -/
theorem targetOf_of_mandatory {key k : String} (h : Template.mandatory? key = some k) :
    targetOf c key = some k := by
  rw [Template.mandatory?] at h
  rw [targetOf]
  split at h
  · rename_i hescaped
    rwa [if_pos hescaped]
  · rename_i hescaped
    split at h
    · cases h
    · rename_i hmark
      rwa [if_neg hescaped, if_neg hmark]

theorem table_names (h : table app merge create c p = .ok r) : c.names ⊆ r.names :=
  (Table.names_of_extends (table_extends (R := fun _ _ => True) (fun _ _ _ _ _ _ _ => trivial)
    (Table.extends_refl (fun _ => trivial) c) h)).subset

theorem mem_names_set (key : String) (a : α) (t : Table α) : key ∈ (t.set key a).names := by
  rw [← Table.has_iff_mem_names, Table.has, Table.get?_set_self]
  rfl

/-- A merge leaves no mandatory entry out. -/
theorem table_provides (h : table app merge create c p = .ok r) : r.Provides app.dictionary p := by
  induction p generalizing c with
  | nil => exact nofun
  | cons e p ih =>
    obtain ⟨raw, parent⟩ := e
    obtain ⟨key, hkey, ⟨hnone, h⟩ | ⟨place, new, hplace, -, h⟩⟩ := table_cons_eq_ok.mp h
    · refine List.forall_mem_cons.mpr ⟨⟨key, filledKey_of_name hkey, fun k hk => ?_⟩, ih h⟩
      rw [targetOf_of_mandatory hk] at hnone
      cases hnone
    · refine List.forall_mem_cons.mpr ⟨⟨key, filledKey_of_name hkey, fun k hk => ?_⟩, ih h⟩
      -- the entry goes to its key, and the others take it from there no more
      obtain rfl : k = place := Option.some.inj ((targetOf_of_mandatory hk).symm.trans hplace)
      exact table_names h (mem_names_set k new c)

end Tables

/-- A method that a template was merged into has all that the template calls for. -/
theorem method_provides {c p r : Method} (h : method app c p = .ok r) :
    r.Provides app.dictionary p :=
  have h := method_eq_ok.mp h
  ⟨table_provides h.headers, table_provides h.queryParameters, table_provides h.responses⟩

/-- A merge lets the method grow. -/
theorem method_growsTo {c p r : Method} (h : method app c p = .ok r) : c.GrowsTo r :=
  have h := method_eq_ok.mp h
  ⟨h.name, table_names h.headers, table_names h.queryParameters, table_names h.responses⟩

end Merge

/-! ## Normal form -/

theorem Parameter.names_normalizeTable (t : Table Parameter) :
    (normalizeTable t).names = t.names := by
  rw [normalizeTable, Table.names, List.map_map]
  rfl

/-- So does its normal form. -/
theorem Method.growsTo_normalize {m m' : Method} (h : m.normalize = .ok m') : m.GrowsTo m' := by
  obtain ⟨bodies, -, h⟩ := bind_eq_ok.mp h
  obtain ⟨responses, hresponses, h⟩ := bind_eq_ok.mp h
  cases pure_eq_ok.mp h
  have hnames : responses.names = m.responses.names :=
    (Table.matches_of_mapValuesM hresponses).names
  exact {
    name := rfl
    headers := (Parameter.names_normalizeTable m.headers) ▸ List.Subset.refl _
    queryParameters := (Parameter.names_normalizeTable m.queryParameters) ▸ List.Subset.refl _
    responses := hnames ▸ List.Subset.refl _ }

end Raml
