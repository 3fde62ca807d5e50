import Raml.Merge.Entity
import Raml.Proofs.Outcome

/-!
# Merges field by field

A merge of two entities succeeds exactly when the merge of each of their fields does, and then its
result has these for its fields. Each entity has a structure that says so (`ParameterMerged`,
`BodyMerged` and so on), so that a property of merges is proved from the fields alone.

In the same way a merge of two tables succeeds along the entries of the template: `table_cons_eq_ok`
and its like say all that one entry can do, and a property of merged tables is proved by induction
on the entries.
-/

namespace Raml.Merge

/-- The name of a template is the text filled in, unless nothing is left of it. -/
theorem name_eq_ok {app : Application} {raw key : String} :
    app.name raw = .ok key ↔
      ∃ s, Template.instantiate app.dictionary raw = .ok s ∧
        key = if s.isEmpty then raw else s := by
  have htext : raw ≠ "" → app.text none (some raw) =
      Application.filled ((Template.instantiate app.dictionary raw).map some) := by
    intro hraw
    rw [Application.text, Template.substitute.eq_def]
    simp [Template.stands, hraw]
  have hname : app.name raw = Application.filled
      ((Template.instantiate app.dictionary raw).map fun s => if s.isEmpty then raw else s) := by
    by_cases hraw : raw = ""
    · subst hraw
      rw [Template.instantiate, show "".toList = [] from rfl, Template.segments]
      rfl
    · rw [Application.name, htext hraw]
      cases Template.instantiate app.dictionary raw <;> rfl
  rw [hname, Application.filled, mapError_eq_ok, map_eq_ok]
  simp only [eq_comm (b := key)]

theorem sameName_iff (a b : Option String) : sameName a b = true ↔ a = b := beq_iff_eq

/-! ## Tables -/

section Tables

variable {app : Application} {α : Type} {t p r : Table α} {raw : String} {parent : α}

/-- The place of a key is that of the name that comes of it. -/
theorem target_eq_ok {place : Option String} :
    target app t raw = .ok place ↔ ∃ key, app.name raw = .ok key ∧ targetOf t key = place := by
  unfold target
  simp only [bind_eq_ok, pure_eq_ok]

/-- An entry that goes nowhere is passed over, and another one is merged into what stands where it
goes. -/
theorem table_cons_eq_ok {merge : α → α → Except Error α} {create : String → α} :
    table app merge create t ((raw, parent) :: p) = .ok r ↔ ∃ key, app.name raw = .ok key ∧
      (targetOf t key = none ∧ table app merge create t p = .ok r ∨
        ∃ place new, targetOf t key = some place ∧
          merge ((t.get? place).getD (create place)) parent = .ok new ∧
          table app merge create (t.set place new) p = .ok r) := by
  rw [table, bind_eq_ok]
  simp only [target_eq_ok]
  constructor
  · rintro ⟨_, ⟨key, hkey, rfl⟩, h⟩
    refine ⟨key, hkey, ?_⟩
    split at h
    · next hnone => exact .inl ⟨hnone, h⟩
    · next place hplace =>
      obtain ⟨new, hnew, h⟩ := bind_eq_ok.mp h
      exact .inr ⟨place, new, hplace, hnew, h⟩
  · rintro ⟨key, hkey, ⟨hnone, h⟩ | ⟨place, new, hplace, hnew, h⟩⟩
    · exact ⟨none, ⟨key, hkey, hnone⟩, h⟩
    · exact ⟨some place, ⟨key, hkey, hplace⟩, bind_eq_ok.mpr ⟨new, hnew, h⟩⟩

/-- An entry is added if it goes somewhere and nothing is there. -/
theorem additions_cons_eq_ok {make : α → Except Error α} :
    additions app make t ((raw, parent) :: p) = .ok r ↔ ∃ key, app.name raw = .ok key ∧
      ((∀ place, targetOf t key = some place → t.has place = true) ∧
          additions app make t p = .ok r ∨
        ∃ place a, targetOf t key = some place ∧ t.has place = false ∧ make parent = .ok a ∧
          additions app make (t.set place a) p = .ok r) := by
  rw [additions, bind_eq_ok]
  simp only [target_eq_ok]
  constructor
  · rintro ⟨_, ⟨key, hkey, rfl⟩, h⟩
    refine ⟨key, hkey, ?_⟩
    split at h
    · next hnone =>
      rw [hnone]
      exact .inl ⟨nofun, h⟩
    · next place hplace =>
      split at h
      · -- an entry that is there already is left as it is
        next hhas =>
        refine .inl ⟨fun other hother => ?_, h⟩
        rwa [← Option.some.inj (hplace.symm.trans hother)]
      · next hnew =>
        obtain ⟨a, ha, h⟩ := bind_eq_ok.mp h
        exact .inr ⟨place, a, hplace, eq_false_of_ne_true hnew, ha, h⟩
  · rintro ⟨key, hkey, ⟨hthere, h⟩ | ⟨place, a, hplace, hnew, ha, h⟩⟩
    · refine ⟨targetOf t key, ⟨key, hkey, rfl⟩, ?_⟩
      cases htarget : targetOf t key with
      | none => exact h
      | some place => exact (if_pos (hthere place htarget)).trans h
    · refine ⟨some place, ⟨key, hkey, hplace⟩, ?_⟩
      exact (if_neg (by simp [hnew])).trans (bind_eq_ok.mpr ⟨a, ha, h⟩)

/-- An entry under a key that is there adds nothing. -/
theorem values_cons_eq_ok {t p r : Table Value} {key : String} {v : Value} :
    values app t ((key, v) :: p) = .ok r ↔
      t.has key = true ∧ values app t p = .ok r ∨
        t.has key = false ∧ ∃ v', app.value v = .ok v' ∧ values app (t.set key v') p = .ok r := by
  rw [values]
  cases t.has key <;> simp [bind_eq_ok]

end Tables

/-! ## Entities -/

/-- What it means that a template was merged into a parameter with the result `r`. -/
structure ParameterMerged (app : Application) (c p r : Parameter) : Prop where
  name : r.name = c.name
  type : app.typeName c.type p.type = .ok r.type
  displayName : app.text c.displayName p.displayName = .ok r.displayName
  description : app.text c.description p.description = .ok r.description
  choices : Merge.choices app c.choices p.choices = .ok r.choices
  pattern : app.text c.pattern p.pattern = .ok r.pattern
  minLength : templated app .integer c.name "min_length" c.minLength p.minLength = .ok r.minLength
  maxLength : templated app .integer c.name "max_length" c.maxLength p.maxLength = .ok r.maxLength
  minimum : templated app .double c.name "minimum" c.minimum p.minimum = .ok r.minimum
  maximum : templated app .double c.name "maximum" c.maximum p.maximum = .ok r.maximum
  format : app.text c.format p.format = .ok r.format
  sample : anything app c.sample p.sample = .ok r.sample
  fallback : anything app c.fallback p.fallback = .ok r.fallback
  repeats : templated app .truth c.name "repeat" c.repeats p.repeats = .ok r.repeats
  required : templated app .truth c.name "required" c.required p.required = .ok r.required
  items : anything app c.items p.items = .ok r.items
  annotations : values app c.annotations p.annotations = .ok r.annotations

theorem parameter_eq_ok {app : Application} {c p r : Parameter} :
    parameter app c p = .ok r ↔ ParameterMerged app c p r := by
  constructor
  · intro h
    simp only [parameter, bind_eq_ok, pure_eq_ok] at h
    obtain ⟨_, htype, _, hdisplay, _, hdescription, _, hchoices, _, hpattern, _, hminLength, _,
      hmaxLength, _, hminimum, _, hmaximum, _, hformat, _, hsample, _, hfallback, _, hrepeats, _,
      hrequired, _, hitems, _, hannotations, rfl⟩ := h
    exact ⟨rfl, htype, hdisplay, hdescription, hchoices, hpattern, hminLength, hmaxLength,
      hminimum, hmaximum, hformat, hsample, hfallback, hrepeats, hrequired, hitems, hannotations⟩
  · rintro ⟨hname, htype, hdisplay, hdescription, hchoices, hpattern, hminLength, hmaxLength,
      hminimum, hmaximum, hformat, hsample, hfallback, hrepeats, hrequired, hitems, hannotations⟩
    simp only [parameter, bind_eq_ok, pure_eq_ok]
    exact ⟨_, htype, _, hdisplay, _, hdescription, _, hchoices, _, hpattern, _, hminLength, _,
      hmaxLength, _, hminimum, _, hmaximum, _, hformat, _, hsample, _, hfallback, _, hrepeats, _,
      hrequired, _, hitems, _, hannotations, by rw [← hname]⟩

/-- What it means that a template was merged into a body with the result `r`. -/
structure BodyMerged (app : Application) (c p r : Body) : Prop where
  type : app.shape c.type p.type = .ok r.type
  items : app.shape c.items p.items = .ok r.items
  schema : app.text c.schema p.schema = .ok r.schema
  description : app.text c.description p.description = .ok r.description
  sample : anything app c.sample p.sample = .ok r.sample
  properties : Merge.properties app c.properties p.properties = .ok r.properties
  headers : parameters app c.headers p.headers = .ok r.headers
  facets : values app c.facets p.facets = .ok r.facets
  annotations : values app c.annotations p.annotations = .ok r.annotations

theorem body_eq_ok {app : Application} {c p r : Body} :
    body app c p = .ok r ↔ BodyMerged app c p r := by
  constructor
  · intro h
    simp only [body, bind_eq_ok, pure_eq_ok] at h
    obtain ⟨_, htype, _, hitems, _, hschema, _, hdescription, _, hsample, _, hproperties, _,
      hheaders, _, hfacets, _, hannotations, rfl⟩ := h
    exact ⟨htype, hitems, hschema, hdescription, hsample, hproperties, hheaders, hfacets,
      hannotations⟩
  · rintro ⟨htype, hitems, hschema, hdescription, hsample, hproperties, hheaders, hfacets,
      hannotations⟩
    simp only [body, bind_eq_ok, pure_eq_ok]
    exact ⟨_, htype, _, hitems, _, hschema, _, hdescription, _, hsample, _, hproperties, _,
      hheaders, _, hfacets, _, hannotations, rfl⟩

/-- What it means that bodies of a template were merged into others with the result `r`. -/
structure BodiesMerged (app : Application) (c p r : Bodies) : Prop where
  flat : flatBody app c.flat p.flat = .ok r.flat
  byMediaType :
    table app (body app) (fun _ => .empty) c.byMediaType p.byMediaType = .ok r.byMediaType
  annotations : values app c.annotations p.annotations = .ok r.annotations

theorem bodies_eq_ok {app : Application} {c p r : Bodies} :
    bodies app c p = .ok r ↔ BodiesMerged app c p r := by
  constructor
  · intro h
    simp only [bodies, bind_eq_ok, pure_eq_ok] at h
    obtain ⟨_, hflat, _, hmedia, _, hannotations, rfl⟩ := h
    exact ⟨hflat, hmedia, hannotations⟩
  · rintro ⟨hflat, hmedia, hannotations⟩
    simp only [bodies, bind_eq_ok, pure_eq_ok]
    exact ⟨_, hflat, _, hmedia, _, hannotations, rfl⟩

/-- What it means that a template was merged into a response with the result `r`. -/
structure ResponseMerged (app : Application) (c p r : Response) : Prop where
  code : r.code = c.code
  description : app.text c.description p.description = .ok r.description
  headers : parameters app c.headers p.headers = .ok r.headers
  bodies : Merge.bodies app c.bodies p.bodies = .ok r.bodies
  annotations : values app c.annotations p.annotations = .ok r.annotations

theorem response_eq_ok {app : Application} {c p r : Response} :
    response app c p = .ok r ↔ ResponseMerged app c p r := by
  constructor
  · intro h
    simp only [response, bind_eq_ok, pure_eq_ok] at h
    obtain ⟨_, hdescription, _, hheaders, _, hbodies, _, hannotations, rfl⟩ := h
    exact ⟨rfl, hdescription, hheaders, hbodies, hannotations⟩
  · rintro ⟨hcode, hdescription, hheaders, hbodies, hannotations⟩
    simp only [response, bind_eq_ok, pure_eq_ok]
    exact ⟨_, hdescription, _, hheaders, _, hbodies, _, hannotations, by rw [← hcode]⟩

/-- What it means that a template was merged into a method with the result `r`. -/
structure MethodMerged (app : Application) (c p r : Method) : Prop where
  name : r.name = c.name
  traits : r.traits = c.traits
  displayName : app.text c.displayName p.displayName = .ok r.displayName
  description : app.text c.description p.description = .ok r.description
  queryParameters : parameters app c.queryParameters p.queryParameters = .ok r.queryParameters
  headers : parameters app c.headers p.headers = .ok r.headers
  queryString : app.shape c.queryString p.queryString = .ok r.queryString
  responses :
    table app (response app) Response.ofCode c.responses p.responses = .ok r.responses
  bodies : Merge.bodies app c.bodies p.bodies = .ok r.bodies
  protocols : r.protocols = appendMissing (· == ·) id c.protocols p.protocols
  securedBy : security app c.securedBy p.securedBy = .ok r.securedBy
  annotations : values app c.annotations p.annotations = .ok r.annotations

theorem method_eq_ok {app : Application} {c p r : Method} :
    method app c p = .ok r ↔ MethodMerged app c p r := by
  constructor
  · intro h
    simp only [method, bind_eq_ok, pure_eq_ok] at h
    obtain ⟨_, hdisplay, _, hdescription, _, hquery, _, hheaders, _, hstring, _, hresponses, _,
      hbodies, _, hsecured, _, hannotations, rfl⟩ := h
    exact ⟨rfl, rfl, hdisplay, hdescription, hquery, hheaders, hstring, hresponses, hbodies, rfl,
      hsecured, hannotations⟩
  · rintro ⟨hname, htraits, hdisplay, hdescription, hquery, hheaders, hstring, hresponses, hbodies,
      hprotocols, hsecured, hannotations⟩
    simp only [method, bind_eq_ok, pure_eq_ok]
    exact ⟨_, hdisplay, _, hdescription, _, hquery, _, hheaders, _, hstring, _, hresponses, _,
      hbodies, _, hsecured, _, hannotations, by rw [← hname, ← htraits, ← hprotocols]⟩

/-- What it means that a resource type was merged into a resource with the result `r`. -/
structure ResourceMerged (app : Application) (c : Resource) (p : ResourceType) (r : Resource) :
    Prop where
  others : r = { c with
    annotations := r.annotations, displayName := r.displayName, description := r.description
    uriParameters := r.uriParameters, securedBy := r.securedBy }
  description : app.text c.description p.description = .ok r.description
  displayName : app.text c.displayName p.displayName = .ok r.displayName
  uriParameters : parameters app c.uriParameters p.uriParameters = .ok r.uriParameters
  securedBy : security app c.securedBy p.securedBy = .ok r.securedBy
  annotations : values app c.annotations p.annotations = .ok r.annotations

theorem resource_eq_ok {app : Application} {c r : Resource} {p : ResourceType} :
    resource app c p = .ok r ↔ ResourceMerged app c p r := by
  constructor
  · intro h
    simp only [resource, bind_eq_ok, pure_eq_ok] at h
    obtain ⟨_, hdescription, _, hdisplay, _, huri, _, hsecured, _, hannotations, rfl⟩ := h
    exact ⟨rfl, hdescription, hdisplay, huri, hsecured, hannotations⟩
  · rintro ⟨hothers, hdescription, hdisplay, huri, hsecured, hannotations⟩
    simp only [resource, bind_eq_ok, pure_eq_ok]
    exact ⟨_, hdescription, _, hdisplay, _, huri, _, hsecured, _, hannotations, hothers.symm⟩

end Raml.Merge
