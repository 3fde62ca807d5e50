import Raml.Proofs.Document.Tree
import Raml.Proofs.Value.Finite

/-!
# Numbers in a document that is written for other programs

What a document may hold anywhere is brought into the form for other programs, in which all doubles
are finite. The limits that a parameter sets for numbers are not: they have been read as doubles,
and are written as they are. So the doubles that are no numbers in what is written are limits of
parameters, wherever in the document these stand (`Api.isFinite_toValue`).

The proof follows the writer, entity by entity. Every field is one of a few kinds, and
`FieldIsFinite` has a lemma for each of them.
-/

namespace Raml

open Value (IsFinite portable)

/-! ## Fields -/

/-- Whether all doubles in a field are finite. -/
def FieldIsFinite (o : Option Value) : Prop := ∀ v, o = some v → v.IsFinite

section Fields

variable {α : Type}

@[simp]
theorem fieldIsFinite_some {v : Value} : FieldIsFinite (some v) ↔ v.IsFinite := by
  simp [FieldIsFinite]

@[simp]
theorem fieldIsFinite_map {o : Option α} {f : α → Value} :
    FieldIsFinite (o.map f) ↔ ∀ a, o = some a → (f a).IsFinite := by
  simp only [FieldIsFinite, Option.map_eq_some_iff]
  grind

@[simp]
theorem fieldIsFinite_ofText? (s : Option String) : FieldIsFinite (Value.ofText? s) := by
  unfold Value.ofText?
  simp

@[simp]
theorem fieldIsFinite_fieldOfTable {write : α → Value} {t : Table α} :
    FieldIsFinite (fieldOfTable write t) ↔ ∀ e ∈ t, (write e.2).IsFinite := by
  unfold fieldOfTable Value.ofTable
  rw [fieldIsFinite_some, Value.isFinite_map, List.forall_mem_map]

/-- Whether all doubles in fields are finite. -/
def FieldsAreFinite (fields : List (String × Option Value)) : Prop :=
  ∀ f ∈ fields, FieldIsFinite f.2

@[simp]
theorem fieldsAreFinite_nil : FieldsAreFinite [] := List.forall_mem_nil _

@[simp]
theorem fieldsAreFinite_cons {f : String × Option Value} {fields : List (String × Option Value)} :
    FieldsAreFinite (f :: fields) ↔ FieldIsFinite f.2 ∧ FieldsAreFinite fields :=
  List.forall_mem_cons

@[simp]
theorem fieldsAreFinite_append {fields others : List (String × Option Value)} :
    FieldsAreFinite (fields ++ others) ↔ FieldsAreFinite fields ∧ FieldsAreFinite others :=
  List.forall_mem_append

@[simp]
theorem isFinite_record {fields : List (String × Option Value)} :
    (Value.record fields).IsFinite ↔ FieldsAreFinite fields := by
  unfold Value.record FieldsAreFinite FieldIsFinite
  simp only [Value.isFinite_map, List.mem_filterMap, Option.map_eq_some_iff]
  constructor
  · intro h f hf v hv
    exact h (.str f.1, v) ⟨f, hf, v, hv, rfl⟩
  · rintro h e ⟨f, hf, v, hv, rfl⟩
    exact h f hf v hv

@[simp]
theorem isFinite_table (t : Table Value) : (FreeForm.table portable t).IsFinite :=
  Value.isFinite_portable _

end Fields

/-! ## Parameters -/

namespace Parameter

/-- Whether the limits that a parameter sets for numbers are finite. -/
def HasFiniteLimits (p : Parameter) : Prop :=
  ∀ x, p.minimum = some (.exact x) ∨ p.maximum = some (.exact x) → x.isFinite = true

/-- The same of one limit, by looking at it. -/
def limitIsFinite : Option (Templated Float) → Bool
  | some (.exact x) => x.isFinite
  | _ => true

/-- Of a parameter only the two limits could be no finite number. -/
theorem hasFiniteLimits_iff (p : Parameter) : p.HasFiniteLimits ↔
    limitIsFinite p.minimum = true ∧ limitIsFinite p.maximum = true := by
  have hlimit : ∀ o, limitIsFinite o = true ↔ ∀ x, o = some (.exact x) → x.isFinite = true := by
    intro o
    cases o with
    | none => exact iff_of_true rfl nofun
    | some l => cases l <;> simp [limitIsFinite]
  rw [hlimit, hlimit, ← forall_and]
  exact forall_congr' fun x => or_imp

instance (p : Parameter) : Decidable p.HasFiniteLimits :=
  decidable_of_iff' _ p.hasFiniteLimits_iff

/-- A limit is written as a finite value unless it is a double that is not finite. -/
theorem isFinite_limit {o : Option (Templated Float)} :
    (∀ l, o = some l → (Templated.toValue .double l).IsFinite) ↔
      ∀ x, o = some (.exact x) → x.isFinite = true := by
  constructor
  · intro h x hx
    exact Value.isFinite_float.mp (h _ hx)
  · intro h l hl
    cases l with
    | exact x => exact Value.isFinite_float.mpr (h x hl)
    | text s hs => exact Value.isFinite_str s

theorem isFinite_integer (l : Templated Int) : (Templated.toValue .integer l).IsFinite := by
  cases l with
  | exact n => exact Value.isFinite_int n
  | text s hs => exact Value.isFinite_str s

theorem isFinite_truth (l : Templated Bool) : (Templated.toValue .truth l).IsFinite := by
  cases l with
  | exact b => exact Value.isFinite_bool b
  | text s hs => exact Value.isFinite_str s

@[simp]
theorem isFinite_toValue (p : Parameter) :
    (p.toValue portable).IsFinite ↔ p.HasFiniteLimits := by
  unfold toValue HasFiniteLimits
  simp only [isFinite_record, fieldsAreFinite_cons, fieldsAreFinite_nil, fieldIsFinite_some,
    fieldIsFinite_map, fieldIsFinite_ofText?, isFinite_table, isFinite_limit, isFinite_integer,
    isFinite_truth, Value.isFinite_str, Value.isFinite_portable, implies_true, true_and, and_true]
  exact ⟨fun h x => Or.rec (h.1 x) (h.2 x), fun h => ⟨fun x hx => h x (.inl hx), fun x hx =>
    h x (.inr hx)⟩⟩

end Parameter

@[simp]
theorem Choice.isFinite_toValue (c : Choice) : (c.toValue portable).IsFinite := by
  unfold toValue
  simp

@[simp]
theorem Choice.isFinite_toValue? (c : Option Choice) : (toValue? portable c).IsFinite := by
  cases c with
  | none => exact Value.isFinite_null
  | some c => exact c.isFinite_toValue

/-- Whether all limits that the parameters in tables set are finite. -/
def LimitsAreFinite (ts : List (Table Parameter)) : Prop := ∀ t ∈ ts, ∀ e ∈ t, e.2.HasFiniteLimits

section LimitsAreFinite

variable {α : Type} {t : Table Parameter} {ts us : List (Table Parameter)}

@[simp]
theorem limitsAreFinite_cons :
    LimitsAreFinite (t :: ts) ↔ (∀ e ∈ t, e.2.HasFiniteLimits) ∧ LimitsAreFinite ts :=
  List.forall_mem_cons

@[simp]
theorem limitsAreFinite_append :
    LimitsAreFinite (ts ++ us) ↔ LimitsAreFinite ts ∧ LimitsAreFinite us :=
  List.forall_mem_append

@[simp]
theorem limitsAreFinite_flatMap {f : α → List (Table Parameter)} {as : List α} :
    LimitsAreFinite (as.flatMap f) ↔ ∀ a ∈ as, LimitsAreFinite (f a) := by
  simp only [LimitsAreFinite, List.mem_flatMap]
  grind

@[simp]
theorem limitsAreFinite_map {f : α → Table Parameter} {as : List α} :
    LimitsAreFinite (as.map f) ↔ ∀ a ∈ as, ∀ e ∈ f a, e.2.HasFiniteLimits :=
  List.forall_mem_map

end LimitsAreFinite

/-! ## Messages, methods and resources -/

@[simp]
theorem Body.isFinite_toValue (b : Body) :
    (b.toValue portable).IsFinite ↔ ∀ e ∈ b.headers, e.2.HasFiniteLimits := by
  unfold toValue
  simp [Value.isFinite_portable]

@[simp]
theorem Bodies.isFinite_toValue (b : Bodies) :
    (b.toValue portable).IsFinite ↔ LimitsAreFinite b.parameterTables := by
  unfold toValue parameterTables all
  rw [limitsAreFinite_map, List.forall_mem_append, List.forall_mem_map]
  simp

@[simp]
theorem Response.isFinite_toValue (r : Response) :
    (r.toValue portable).IsFinite ↔ LimitsAreFinite r.parameterTables := by
  unfold toValue parameterTables
  simp

@[simp]
theorem Method.isFinite_valueFields (m : Method) :
    FieldsAreFinite (m.valueFields portable) ↔ LimitsAreFinite m.parameterTables := by
  unfold valueFields parameterTables
  simp [Value.isFinite_portable, and_comm]

@[simp]
theorem Method.isFinite_toValue (m : Method) :
    (m.toValue portable).IsFinite ↔ LimitsAreFinite m.parameterTables := by
  unfold toValue
  simp

@[simp]
theorem Trait.isFinite_toValue (t : Trait) :
    (t.toValue portable).IsFinite ↔ LimitsAreFinite t.method.parameterTables := by
  unfold toValue
  simp

@[simp]
theorem ResourceType.isFinite_toValue (r : ResourceType) :
    (r.toValue portable).IsFinite ↔ LimitsAreFinite r.parameterTables := by
  unfold toValue parameterTables
  simp

@[simp]
theorem TypeDeclaration.isFinite_toValue (t : TypeDeclaration) :
    (t.toValue portable).IsFinite := by
  unfold toValue
  simp [Value.isFinite_portable]

@[simp]
theorem DescribedBy.isFinite_toValue (d : DescribedBy) :
    (d.toValue portable).IsFinite ↔ LimitsAreFinite d.parameterTables := by
  unfold toValue parameterTables
  simp [Value.isFinite_portable]

@[simp]
theorem SecurityScheme.isFinite_toValue (s : SecurityScheme) :
    (s.toValue portable).IsFinite ↔ LimitsAreFinite s.describedBy.parameterTables := by
  unfold toValue
  simp

@[simp]
theorem Declarations.isFinite_valueFields (d : Declarations) :
    FieldsAreFinite (d.valueFields portable) ↔ LimitsAreFinite d.parameterTables := by
  unfold valueFields parameterTables
  simp

/-! ## Libraries and resources, with all below them -/

namespace Library

mutual

/-- A library is written as a finite value if all limits of its own and in its libraries are finite.
-/
theorem isFinite_toValue : ∀ l : Library, (l.toValue portable).IsFinite ↔
    LimitsAreFinite l.declared.parameterTables ∧
      ∀ own m, Within l.libraries own m → LimitsAreFinite m.declared.parameterTables
  | ⟨annotations, declared, libraries, location, usage⟩ => by
    have hbelow := isFinite_toEntries libraries
    unfold toValue
    simp only [isFinite_record, fieldsAreFinite_cons, fieldsAreFinite_append, fieldsAreFinite_nil,
      fieldIsFinite_some, fieldIsFinite_ofText?, isFinite_table, Value.isFinite_map,
      Value.isFinite_str, Declarations.isFinite_valueFields, List.cons_append, hbelow, true_and,
      and_true]

theorem isFinite_toEntries : ∀ libs : List (String × Library),
    (∀ e ∈ toEntries portable libs, e.2.IsFinite) ↔
      ∀ own l, Within libs own l → LimitsAreFinite l.declared.parameterTables
  | [] => by simp [toEntries, not_within_nil]
  | (key, l) :: rest => by
    have hfirst := isFinite_toValue l
    have hrest := isFinite_toEntries rest
    unfold toEntries
    have hhere : LimitsAreFinite l.declared.parameterTables ↔
        ∀ own m, key = own → l = m → LimitsAreFinite m.declared.parameterTables := by
      constructor
      · rintro h _ _ rfl rfl
        exact h
      · exact fun h => h _ _ rfl rfl
    rw [List.forall_mem_cons, hfirst, hrest, hhere]
    simp only [within_cons, or_imp, forall_and, and_imp, and_assoc]

end

end Library

namespace Resource

/-- A resource is written as a finite record if its limits and what is nested in it are finite. -/
theorem isFinite_record (r : Resource) (nested : Value) :
    (r.record portable nested).IsFinite ↔ LimitsAreFinite r.parameterTables ∧ nested.IsFinite := by
  unfold record parameterTables
  simp
  grind

mutual

/-- A resource is written as a finite value if all limits of its own and of those below it are
finite. -/
theorem isFinite_toValue : ∀ r : Resource, (r.toValue portable).IsFinite ↔
    LimitsAreFinite r.parameterTables ∧
      ∀ s, Within r.nested s → LimitsAreFinite s.parameterTables
  | ⟨annotations, uri, displayName, description, methods, traits, type, securedBy, uriParameters,
      nested⟩ => by
    have hbelow := isFinite_toEntries nested
    unfold toValue
    rw [isFinite_record, Value.isFinite_map, hbelow]
    rfl

theorem isFinite_toEntries : ∀ rs : List (String × Resource),
    (∀ e ∈ toEntries portable rs, e.2.IsFinite) ↔
      ∀ r, Within rs r → LimitsAreFinite r.parameterTables
  | [] => by simp [toEntries, not_within_nil]
  | (key, r) :: rest => by
    have hfirst := isFinite_toValue r
    have hrest := isFinite_toEntries rest
    unfold toEntries
    rw [List.forall_mem_cons, hfirst, hrest]
    simp only [within_cons, or_imp, forall_and, forall_eq', and_assoc]

end

end Resource

/-! ## The document -/

namespace Api

/-- Where parameters stand in a document. -/
inductive HasTable (a : Api) : Table Parameter → Prop where
  | baseUri : HasTable a a.baseUriParameters
  | declared {t : Table Parameter} (h : t ∈ a.declared.parameterTables) : HasTable a t
  | library {own : String} {l : Library} {t : Table Parameter}
      (hl : Library.Within a.libraries own l) (h : t ∈ l.declared.parameterTables) : HasTable a t
  | resource {r : Resource} {t : Table Parameter} (hr : Resource.Within a.resources r)
      (h : t ∈ r.parameterTables) : HasTable a t

/-- Whether all limits that the parameters of a document set for numbers are finite. -/
def HasFiniteLimits (a : Api) : Prop := ∀ t, a.HasTable t → ∀ e ∈ t, e.2.HasFiniteLimits

/-- A document has finite limits if each of its parts has. -/
theorem hasFiniteLimits_iff (a : Api) : a.HasFiniteLimits ↔
    LimitsAreFinite a.declared.parameterTables ∧
      (∀ own l, Library.Within a.libraries own l → LimitsAreFinite l.declared.parameterTables) ∧
      (∀ e ∈ a.baseUriParameters, e.2.HasFiniteLimits) ∧
      ∀ r, Resource.Within a.resources r → LimitsAreFinite r.parameterTables := by
  constructor
  · intro h
    exact ⟨fun t ht => h t (.declared ht), fun own l hl t ht => h t (.library hl ht), h _ .baseUri,
      fun r hr t ht => h t (.resource hr ht)⟩
  · rintro ⟨hdeclared, hlibraries, hbase, hresources⟩ t ht
    cases ht with
    | baseUri => exact hbase
    | declared h => exact hdeclared t h
    | library hl h => exact hlibraries _ _ hl t h
    | resource hr h => exact hresources _ hr t h

/-- The doubles of a document that is written for other programs are finite exactly if the limits
of its parameters are. -/
theorem isFinite_toValue (a : Api) : (a.toValue portable).IsFinite ↔ a.HasFiniteLimits := by
  have hlibraries := Library.isFinite_toEntries a.libraries
  have hresources := Resource.isFinite_toEntries a.resources
  have hpages : ∀ d : Documentation, (d.toValue portable).IsFinite := by
    intro d
    unfold Documentation.toValue
    simp
  rw [hasFiniteLimits_iff]
  unfold toValue
  simp only [isFinite_record, fieldsAreFinite_cons, fieldsAreFinite_append, fieldsAreFinite_nil,
    fieldIsFinite_some, fieldIsFinite_map, fieldIsFinite_ofText?, fieldIsFinite_fieldOfTable,
    isFinite_table, Value.isFinite_map, Value.isFinite_list, Value.isFinite_str,
    Value.isFinite_portable, List.forall_mem_map, Choice.isFinite_toValue?,
    Parameter.isFinite_toValue, Declarations.isFinite_valueFields, List.cons_append, hpages,
    hlibraries, hresources, implies_true, true_and, and_true]

end Api

end Raml
