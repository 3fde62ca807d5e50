import Raml.Proofs.Document.Standing
import Raml.Proofs.Merge.Entity
import Raml.Proofs.Merge.Lists

/-!
# Earlier sources win

What an entity says before a template is merged into it, it still says afterwards. `KeptIn` tells
this for each kind of entity: texts that are not empty and other fields that are set are the same,
the entries of mappings stay in order, each kept in turn, with everything new after them, and
lists only grow at their end.

The order cannot be stated between a method and its successor alone, because what a template
leaves unfilled may still give way to the next one. It is stated between what the method at the
start says for good and the method of the moment: `methodMerged_kept` shows that one more merge
keeps it, whatever else stands beside it by then, and `methodAll_kept` follows by induction over
the templates. In a plain method that is all it says (`kept_of_merges`).
-/

namespace Raml

/-! ## What it means to be kept -/

/-- What is there stays the same. -/
def Kept {α : Type} (a a' : Option α) : Prop := ∀ x, a = some x → a' = some x

/-- A text that says something stays the same. -/
def TextKept (s s' : Option String) : Prop := ∀ t, s = some t → t ≠ "" → s' = some t

/-- A node that says something stays the same; null and the empty text say nothing. -/
def ValueKept (v v' : Value) : Prop := v ≠ .null → v ≠ .str "" → v' = v

/-- What a parameter says is still said by another. -/
structure Parameter.KeptIn (p p' : Parameter) : Prop where
  name : p'.name = p.name
  type : TextKept p.type p'.type
  displayName : TextKept p.displayName p'.displayName
  description : TextKept p.description p'.description
  choices : Kept p.choices p'.choices
  pattern : TextKept p.pattern p'.pattern
  minLength : Kept p.minLength p'.minLength
  maxLength : Kept p.maxLength p'.maxLength
  minimum : Kept p.minimum p'.minimum
  maximum : Kept p.maximum p'.maximum
  format : TextKept p.format p'.format
  sample : ValueKept p.sample p'.sample
  fallback : ValueKept p.fallback p'.fallback
  repeats : Kept p.repeats p'.repeats
  required : Kept p.required p'.required
  items : ValueKept p.items p'.items
  annotations : p.annotations <+: p'.annotations

/-- What a body says is still said by another. -/
structure Body.KeptIn (b b' : Body) : Prop where
  type : Kept b.type b'.type
  items : Kept b.items b'.items
  schema : TextKept b.schema b'.schema
  description : TextKept b.description b'.description
  sample : ValueKept b.sample b'.sample
  properties : b.properties <+: b'.properties
  headers : Table.Extends Parameter.KeptIn b.headers b'.headers
  facets : b.facets <+: b'.facets
  annotations : b.annotations <+: b'.annotations

/-- What the bodies of a message say is still said by others. -/
structure Bodies.KeptIn (b b' : Bodies) : Prop where
  flat : ∀ f, b.flat = some f → ∃ f', b'.flat = some f' ∧ f.KeptIn f'
  byMediaType : Table.Extends Body.KeptIn b.byMediaType b'.byMediaType
  annotations : b.annotations <+: b'.annotations

/-- What a response says is still said by another. -/
structure Response.KeptIn (r r' : Response) : Prop where
  code : r'.code = r.code
  description : TextKept r.description r'.description
  headers : Table.Extends Parameter.KeptIn r.headers r'.headers
  bodies : r.bodies.KeptIn r'.bodies
  annotations : r.annotations <+: r'.annotations

/-- What a method says is still said by another. -/
structure Method.KeptIn (m m' : Method) : Prop where
  name : m'.name = m.name
  traits : m'.traits = m.traits
  displayName : TextKept m.displayName m'.displayName
  description : TextKept m.description m'.description
  queryParameters : Table.Extends Parameter.KeptIn m.queryParameters m'.queryParameters
  headers : Table.Extends Parameter.KeptIn m.headers m'.headers
  queryString : Kept m.queryString m'.queryString
  responses : Table.Extends Response.KeptIn m.responses m'.responses
  bodies : m.bodies.KeptIn m'.bodies
  protocols : m.protocols <+: m'.protocols
  securedBy : m.securedBy <+: m'.securedBy
  annotations : m.annotations <+: m'.annotations

/-- What a resource says in the fields that resource types add to is still said by another. -/
structure Resource.KeptIn (r r' : Resource) : Prop where
  description : TextKept r.description r'.description
  displayName : TextKept r.displayName r'.displayName
  uriParameters : Table.Extends Parameter.KeptIn r.uriParameters r'.uriParameters
  securedBy : r.securedBy <+: r'.securedBy
  annotations : r.annotations <+: r'.annotations

theorem Parameter.keptIn_refl (p : Parameter) : p.KeptIn p :=
  ⟨rfl, fun _ h _ => h, fun _ h _ => h, fun _ h _ => h, fun _ h => h, fun _ h _ => h,
    fun _ h => h, fun _ h => h, fun _ h => h, fun _ h => h, fun _ h _ => h, fun _ _ => rfl,
    fun _ _ => rfl, fun _ h => h, fun _ h => h, fun _ _ => rfl, List.prefix_refl _⟩

theorem Body.keptIn_refl (b : Body) : b.KeptIn b :=
  ⟨fun _ h => h, fun _ h => h, fun _ h _ => h, fun _ h _ => h, fun _ _ => rfl, List.prefix_refl _,
    Table.extends_refl Parameter.keptIn_refl _, List.prefix_refl _, List.prefix_refl _⟩

theorem Bodies.keptIn_refl (b : Bodies) : b.KeptIn b :=
  ⟨fun f h => ⟨f, h, f.keptIn_refl⟩, Table.extends_refl Body.keptIn_refl _, List.prefix_refl _⟩

theorem Response.keptIn_refl (r : Response) : r.KeptIn r :=
  ⟨rfl, fun _ h _ => h, Table.extends_refl Parameter.keptIn_refl _, r.bodies.keptIn_refl,
    List.prefix_refl _⟩

/-- A method keeps what it has. -/
theorem Method.keptIn_refl (m : Method) : m.KeptIn m :=
  ⟨rfl, rfl, fun _ h _ => h, fun _ h _ => h, Table.extends_refl Parameter.keptIn_refl _,
    Table.extends_refl Parameter.keptIn_refl _, fun _ h => h,
    Table.extends_refl Response.keptIn_refl _, m.bodies.keptIn_refl, List.prefix_refl _,
    List.prefix_refl _, List.prefix_refl _⟩

theorem Resource.keptIn_refl (r : Resource) : r.KeptIn r :=
  ⟨fun _ h _ => h, fun _ h _ => h, Table.extends_refl Parameter.keptIn_refl _, List.prefix_refl _,
    List.prefix_refl _⟩

namespace Merge

variable {app : Application}

/-! ## Single fields -/

/-- A text that is neither empty nor a template stands. -/
theorem stands_of_plain {t : String} (hne : t ≠ "") (ht : Template.hasBrackets t = false) :
    Template.stands (some t) = true := by
  simp [Template.stands, ht, hne]

theorem text_of_stands {c p : Option String} (h : Template.stands c = true) :
    app.text c p = .ok c := by
  rw [Application.text, Template.substitute.eq_def, if_pos h]
  rfl

/-- A text that stands is kept. -/
theorem text_kept {s c p r : Option String} (h : TextKept (textStanding s) c)
    (hr : app.text c p = .ok r) : TextKept (textStanding s) r := by
  intro t ht hne
  have hplain : Template.hasBrackets t = false := (textStanding_eq_some.mp ht).2
  have hc : c = some t := h t ht hne
  rw [hc, text_of_stands (stands_of_plain hne hplain)] at hr
  exact (Except.ok.inj hr).symm

theorem typeName_kept {s c p r : Option String} (h : TextKept (textStanding s) c)
    (hr : app.typeName c p = .ok r) : TextKept (textStanding s) r := by
  intro t ht hne
  have hplain : Template.hasBrackets t = false := (textStanding_eq_some.mp ht).2
  have hc : c = some t := h t ht hne
  rw [hc, Application.typeName, if_pos (stands_of_plain hne hplain)] at hr
  exact (Except.ok.inj hr).symm

/-- A field that is set and no text gives way to nothing. -/
theorem templated_kept {α : Type} {k : Kind α} {label field : String}
    {s c p r : Option (Templated α)} (h : Kept (Templated.standing s) c)
    (hr : templated app k label field c p = .ok r) : Kept (Templated.standing s) r := by
  intro x hx
  have hc : c = some x := h x hx
  subst hc
  cases x with
  | text t ht => exact absurd hx Templated.standing_ne_text
  | exact a =>
    cases p with
    | none => exact (Except.ok.inj hr).symm
    | some p => cases p <;> exact (Except.ok.inj hr).symm

theorem choices_kept {s c p r : Option (List Value)} (h : Kept s c)
    (hr : choices app c p = .ok r) : Kept s r := by
  intro x hx
  have hc : c = some x := h x hx
  subst hc
  cases p <;> exact (Except.ok.inj hr).symm

theorem anything_kept {s c p r : Value} (h : ValueKept s.standing c)
    (hr : anything app c p = .ok r) : ValueKept s.standing r := by
  intro hnull hempty
  have hc : c = s.standing := h hnull hempty
  have hs : ∀ t, s.standing = .str t → Template.hasBrackets t = false :=
    fun t => Value.hasBrackets_of_standing_eq
  rw [← hc] at hnull hempty hs ⊢
  cases c with
  | null => exact absurd rfl hnull
  | str t =>
    cases p with
    | str u =>
      -- the one case in which the rule for texts applies
      have hne : t ≠ "" := fun ht => hempty (congrArg Value.str ht)
      have ht : Template.hasBrackets t = false := hs t rfl
      rw [anything, text_of_stands (stands_of_plain hne ht)] at hr
      exact (Except.ok.inj hr).symm
    | _ => exact (Except.ok.inj hr).symm
  | _ => cases p <;> exact (Except.ok.inj hr).symm

/-- A shape that stands is kept. -/
theorem shape_kept {s c p r : Option Shape} (h : Kept (Shape.standing s) c)
    (hr : app.shape c p = .ok r) : Kept (Shape.standing s) r := by
  intro x hx
  have hc : c = some x := h x hx
  have hplain : Application.hasBrackets x.toValue = false := (Shape.standing_eq_some.mp hx).2
  subst hc
  cases p with
  | none => exact (Except.ok.inj hr).symm
  | some p =>
    rw [Application.shape, if_neg (by simp [hplain])] at hr
    exact (Except.ok.inj hr).symm

/-! ## Mappings and lists -/

/-- Values are put after those that are there. -/
theorem values_grow {c p r : Table Value} (h : values app c p = .ok r) : c <+: r := by
  induction p generalizing c with
  | nil => exact Except.ok.inj h ▸ List.prefix_refl _
  | cons e p ih =>
    obtain ⟨key, v⟩ := e
    rcases values_cons_eq_ok.mp h with ⟨-, h⟩ | ⟨hnew, v', -, h⟩
    · exact ih h
    · rw [Table.set_of_not_has hnew] at h
      exact (List.prefix_append _ _).trans (ih h)

theorem additions_grow {α : Type} {make : α → Except Error α} {c p r : Table α}
    (h : additions app make c p = .ok r) : c <+: r := by
  induction p generalizing c with
  | nil => exact Except.ok.inj h ▸ List.prefix_refl _
  | cons e p ih =>
    obtain ⟨raw, parent⟩ := e
    obtain ⟨key, -, ⟨-, h⟩ | ⟨place, a, -, hnew, -, h⟩⟩ := additions_cons_eq_ok.mp h
    · exact ih h
    · rw [Table.set_of_not_has hnew] at h
      exact (List.prefix_append _ _).trans (ih h)

/-- Merging tables keeps what merging their entries keeps. -/
theorem table_extends {α : Type} {R : α → α → Prop} {merge : α → α → Except Error α}
    {create : String → α} {t c p r : Table α}
    (hmerge : ∀ e ∈ t, ∀ old parent new, R e.2 old → merge old parent = .ok new → R e.2 new)
    (ht : Table.Extends R t c) (h : table app merge create c p = .ok r) :
    Table.Extends R t r := by
  induction p generalizing c with
  | nil => exact Except.ok.inj h ▸ ht
  | cons e p ih =>
    obtain ⟨raw, parent⟩ := e
    obtain ⟨key, -, ⟨-, h⟩ | ⟨place, new, -, hnew, h⟩⟩ := table_cons_eq_ok.mp h
    · exact ih ht h
    · -- the entry merged into is the one of the moment, which may have been merged into before
      refine ih (ht.set fun e he old hold hR => ?_) h
      rw [hold, Option.getD_some] at hnew
      exact hmerge e he old parent new hR hnew

/-- Security schemes are put after those that are there. -/
theorem security_grow {c p r : List (Option Choice)} (h : security app c p = .ok r) :
    c <+: r := by
  obtain ⟨others, -, h⟩ := bind_eq_ok.mp h
  exact pure_eq_ok.mp h ▸ appendFrom_grow

/-! ## Entities -/

/-- A parameter keeps what stands in it. -/
theorem parameterMerged_kept {s c p r : Parameter} (h : s.standing.KeptIn c)
    (hr : ParameterMerged app c p r) : s.standing.KeptIn r :=
  { name := hr.name.trans h.name
    type := typeName_kept h.type hr.type
    displayName := text_kept h.displayName hr.displayName
    description := text_kept h.description hr.description
    choices := choices_kept h.choices hr.choices
    pattern := text_kept h.pattern hr.pattern
    minLength := templated_kept h.minLength hr.minLength
    maxLength := templated_kept h.maxLength hr.maxLength
    minimum := templated_kept h.minimum hr.minimum
    maximum := templated_kept h.maximum hr.maximum
    format := text_kept h.format hr.format
    sample := anything_kept h.sample hr.sample
    fallback := anything_kept h.fallback hr.fallback
    repeats := templated_kept h.repeats hr.repeats
    required := templated_kept h.required hr.required
    items := anything_kept h.items hr.items
    annotations := h.annotations.trans (values_grow hr.annotations) }

/-- A parameter that is plain is kept as a whole. -/
theorem parameter_kept {s c p r : Parameter} (hs : IsPlain s.texts) (h : s.KeptIn c)
    (hr : parameter app c p = .ok r) : s.KeptIn r := by
  rw [← Parameter.standing_of_isPlain hs] at h ⊢
  exact parameterMerged_kept h (parameter_eq_ok.mp hr)

/-- Merging tables keeps what merging their entries keeps of what they say for good. -/
theorem table_kept {α : Type} {R : α → α → Prop} {merge : α → α → Except Error α}
    {create : String → α} {f : α → α} {s c p r : Table α}
    (hmerge : ∀ a old parent new, R (f a) old → merge old parent = .ok new → R (f a) new)
    (h : Table.Extends R (s.mapValues f) c) (hr : table app merge create c p = .ok r) :
    Table.Extends R (s.mapValues f) r := by
  refine table_extends (fun e he old parent new hkept hnew => ?_) h hr
  obtain ⟨a, -, ha⟩ := Table.of_mem_mapValues he
  rw [← ha] at hkept ⊢
  exact hmerge a old parent new hkept hnew

theorem parameters_kept {s c p r : Table Parameter}
    (h : Table.Extends Parameter.KeptIn (Parameter.allStanding s) c)
    (hr : parameters app c p = .ok r) :
    Table.Extends Parameter.KeptIn (Parameter.allStanding s) r :=
  table_kept (fun _ _ _ _ hkept hnew => parameterMerged_kept hkept (parameter_eq_ok.mp hnew))
    h hr

/-- A body keeps what stands in it. -/
theorem bodyMerged_kept {s c p r : Body} (h : s.standing.KeptIn c) (hr : BodyMerged app c p r) :
    s.standing.KeptIn r :=
  { type := shape_kept h.type hr.type
    items := shape_kept h.items hr.items
    schema := text_kept h.schema hr.schema
    description := text_kept h.description hr.description
    sample := anything_kept h.sample hr.sample
    properties := h.properties.trans (additions_grow hr.properties)
    headers := parameters_kept h.headers hr.headers
    facets := h.facets.trans (values_grow hr.facets)
    annotations := h.annotations.trans (values_grow hr.annotations) }

/-- The flat body stays, and one that is there is merged into. -/
theorem flatBody_kept {s c p r : Option Body}
    (h : ∀ f, s.map Body.standing = some f → ∃ f', c = some f' ∧ f.KeptIn f')
    (hr : flatBody app c p = .ok r) :
    ∀ f, s.map Body.standing = some f → ∃ f', r = some f' ∧ f.KeptIn f' := by
  intro f hf
  obtain ⟨old, rfl, hkept⟩ := h f hf
  obtain ⟨own, -, rfl⟩ := Option.map_eq_some_iff.mp hf
  cases p with
  | none => exact ⟨old, (Except.ok.inj hr).symm, hkept⟩
  | some parent =>
    rw [flatBody] at hr
    obtain ⟨new, hnew, rfl⟩ := map_eq_ok.mp hr
    exact ⟨new, rfl, bodyMerged_kept hkept (body_eq_ok.mp hnew)⟩

theorem bodiesMerged_kept {s c p r : Bodies} (h : s.standing.KeptIn c)
    (hr : BodiesMerged app c p r) : s.standing.KeptIn r :=
  { flat := flatBody_kept h.flat hr.flat
    byMediaType := table_kept (fun _ _ _ _ hkept hnew =>
      bodyMerged_kept hkept (body_eq_ok.mp hnew)) h.byMediaType hr.byMediaType
    annotations := h.annotations.trans (values_grow hr.annotations) }

/-- A response keeps what stands in it, header by header. -/
theorem responseMerged_kept {s c p r : Response} (h : s.standing.KeptIn c)
    (hr : ResponseMerged app c p r) : s.standing.KeptIn r :=
  { code := hr.code.trans h.code
    description := text_kept h.description hr.description
    headers := parameters_kept h.headers hr.headers
    bodies := bodiesMerged_kept h.bodies (bodies_eq_ok.mp hr.bodies)
    annotations := h.annotations.trans (values_grow hr.annotations) }

/-- **One merge keeps what the first method says for good.** -/
theorem methodMerged_kept {s c p r : Method} (h : s.standing.KeptIn c)
    (hr : MethodMerged app c p r) : s.standing.KeptIn r :=
  { name := hr.name.trans h.name
    traits := hr.traits.trans h.traits
    displayName := text_kept h.displayName hr.displayName
    description := text_kept h.description hr.description
    queryParameters := parameters_kept h.queryParameters hr.queryParameters
    headers := parameters_kept h.headers hr.headers
    queryString := shape_kept h.queryString hr.queryString
    responses := table_kept (fun _ _ _ _ hkept hnew =>
      responseMerged_kept hkept (response_eq_ok.mp hnew)) h.responses hr.responses
    bodies := bodiesMerged_kept h.bodies (bodies_eq_ok.mp hr.bodies)
    protocols := h.protocols.trans (hr.protocols ▸ appendFrom_grow)
    securedBy := h.securedBy.trans (security_grow hr.securedBy)
    annotations := h.annotations.trans (values_grow hr.annotations) }

/-- **One merge keeps what the first resource says for good.** -/
theorem resourceMerged_kept {s c r : Resource} {p : ResourceType} (h : s.standing.KeptIn c)
    (hr : ResourceMerged app c p r) : s.standing.KeptIn r :=
  { description := text_kept h.description hr.description
    displayName := text_kept h.displayName hr.displayName
    uriParameters := parameters_kept h.uriParameters hr.uriParameters
    securedBy := h.securedBy.trans (security_grow hr.securedBy)
    annotations := h.annotations.trans (values_grow hr.annotations) }

/-! ## Runs of merges -/

/-- Merges templates into a method one after another, each applied in its own way. -/
def methodAll (m : Method) (steps : List (Application × Method)) : Except Error Method :=
  steps.foldlM (fun c step => method step.1 c step.2) m

/-- Merges resource types into a resource one after another, each applied in its own way. -/
def resourceAll (r : Resource) (steps : List (Application × ResourceType)) :
    Except Error Resource :=
  steps.foldlM (fun c step => resource step.1 c step.2) r

/-- A method keeps what stands in it over any run of templates. -/
theorem methodAll_kept {s m : Method} {steps : List (Application × Method)} :
    ∀ {c}, s.standing.KeptIn c → methodAll c steps = .ok m → s.standing.KeptIn m := by
  -- `c` is the method of the moment, of which only what it keeps of `s` is known
  induction steps with
  | nil =>
    intro c h hm
    exact pure_eq_ok.mp hm ▸ h
  | cons step steps ih =>
    intro c h hm
    rw [methodAll, List.foldlM_cons] at hm
    obtain ⟨next, hnext, hm⟩ := bind_eq_ok.mp hm
    exact ih (methodMerged_kept h (method_eq_ok.mp hnext)) hm

/-- A resource keeps what stands in it over any run of resource types. -/
theorem resourceAll_kept {s r : Resource} {steps : List (Application × ResourceType)} :
    ∀ {c}, s.standing.KeptIn c → resourceAll c steps = .ok r → s.standing.KeptIn r := by
  induction steps with
  | nil =>
    intro c h hr
    exact pure_eq_ok.mp hr ▸ h
  | cons step steps ih =>
    intro c h hr
    rw [resourceAll, List.foldlM_cons] at hr
    obtain ⟨next, hnext, hr⟩ := bind_eq_ok.mp hr
    exact ih (resourceMerged_kept h (resource_eq_ok.mp hnext)) hr

/-- **Earlier sources win over any run of merges.** A method whose texts are plain is kept in what
any templates make of it, in whatever order and with whatever values they are applied; and so is a
resource in what resource types make of it. -/
theorem kept_of_merges :
    (∀ (m m' : Method) (steps : List (Application × Method)),
      IsPlain m.texts → methodAll m steps = .ok m' → m.KeptIn m') ∧
    (∀ (r r' : Resource) (steps : List (Application × ResourceType)),
      IsPlain r.ownTexts → resourceAll r steps = .ok r' → r.KeptIn r') := by
  constructor
  · intro m m' steps hs h
    have hsame : m.standing = m := Method.standing_of_isPlain hs
    have hstart : m.standing.KeptIn m := hsame.symm ▸ m.keptIn_refl
    exact hsame ▸ methodAll_kept hstart h
  · intro r r' steps hs h
    have hsame : r.standing = r := Resource.standing_of_isPlain hs
    have hstart : r.standing.KeptIn r := hsame.symm ▸ r.keptIn_refl
    exact hsame ▸ resourceAll_kept hstart h

/-- A parameter with a type and nothing else. -/
def typed (name type : String) : Parameter :=
  { Parameter.named name with type := some type }

/-- A method that describes itself and types one of its parameters, with a sample of its body. -/
def listing : Method :=
  { Method.named "GET" with
    description := some "All books"
    queryParameters := [("page", typed "page" "integer")]
    bodies := { Bodies.empty with flat := some { Body.empty with sample := .int 1 } } }

/-- A trait that says something on everything that `listing` does, and more. -/
def paged : Method :=
  { Method.named "paged" with
    displayName := some "Pages of <<size>>"
    description := some "Pages"
    queryParameters := [("per", typed "per" "number"), ("page", typed "page" "string")]
    bodies := { Bodies.empty with flat := some { Body.empty with sample := .int 2 } } }

/-- The values with which `paged` is applied. -/
def fifty : Application := { Application.empty with dictionary := [("size", .int 50)] }

/-- A resource with a parameter in its path. -/
def shelf : Resource :=
  { uri := "/{id}", annotations := [], displayName := none, description := some "A shelf"
    methods := [], traits := [], type := none, securedBy := []
    uriParameters := [("id", typed "id" "string")], nested := [] }

/-- A resource type that says something on everything that `shelf` does. -/
def collection : ResourceType :=
  { name := "collection", annotations := [], usage := none, displayName := none
    description := some "<<size>> of them", uriParameters := [("id", typed "id" "integer")]
    traits := [], securedBy := [], methods := [], optionalMethods := [] }

/-- A method and a resource that are filled from templates twice keep all that they said. -/
theorem listing_kept :
    IsPlain listing.texts ∧ IsPlain shelf.ownTexts ∧
      ∃ m r, methodAll listing [(.empty, paged), (fifty, paged)] = .ok m ∧ listing.KeptIn m ∧
        m.displayName = some "Pages of 50" ∧
        resourceAll shelf [(fifty, collection), (.empty, collection)] = .ok r ∧ shelf.KeptIn r := by
  obtain ⟨m, hm, hdisplay⟩ : ∃ m, methodAll listing [(.empty, paged), (fifty, paged)] = .ok m ∧
      m.displayName = some "Pages of 50" :=
    toOption_bind_eq_some.mp (by decide +kernel)
  obtain ⟨r, hr⟩ : ∃ r, resourceAll shelf [(fifty, collection), (.empty, collection)] = .ok r :=
    exists_of_isOk (by decide +kernel)
  have hlisting : IsPlain listing.texts := by decide +kernel
  have hshelf : IsPlain shelf.ownTexts := by decide +kernel
  refine ⟨hlisting, hshelf, m, r, hm, ?_, hdisplay, hr, ?_⟩
  · exact kept_of_merges.1 listing m _ hlisting hm
  · exact kept_of_merges.2 shelf r _ hshelf hr

/-- A method with a sample of its body. -/
def sampled (sample : String) : Method :=
  { Method.named "GET" with
    bodies := { Bodies.empty with flat := some { Body.empty with sample := .str sample } } }

/-- The empty text says nothing even where it is the sample of a body: a template with a text
puts its own there. -/
theorem empty_sample_gives_way :
    ¬∀ (m m' : Method) (steps : List (Application × Method)),
      IsPlain m.texts → methodAll m steps = .ok m' →
        ∀ b b', m.bodies.flat = some b → m'.bodies.flat = some b' →
          b.sample ≠ .null → b'.sample = b.sample := by
  intro h
  obtain ⟨m', hrun, hshown⟩ : ∃ m', methodAll (sampled "") [(.empty, sampled "x")] = .ok m' ∧
      (m'.bodies.flat.map fun b => b.sample.display) = some "x" :=
    toOption_bind_eq_some.mp (by decide +kernel)
  obtain ⟨b', hb', hx⟩ := Option.map_eq_some_iff.mp hshown
  have hsame := h (sampled "") m' _ (by decide +kernel) hrun _ b' rfl hb' (by simp)
  rw [hsame] at hx
  exact absurd hx (by decide)

end Merge
end Raml
