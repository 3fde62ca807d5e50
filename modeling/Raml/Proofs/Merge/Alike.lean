import Raml.Proofs.Merge.Entity
import Raml.Proofs.Merge.Precedence
import Raml.Proofs.Shape.Qualified
import Raml.Proofs.Table

/-!
# One template under two libraries

Two libraries of the same alias that declare different types make the same of a template but for
its types. Methods are `Alike` that differ in their places for types alone, and there only as a
`Likeness` allows; a likeness `Fits` two libraries if it holds of all that they make of one type.
Then whatever merge succeeds under the first library does so under the second one, with a result
alike (`method_alike`). What stood in a place before any template is kept in view all along, so a
likeness may tell what a method says of its own from what its templates bring in.

A merge looks at the type that a child has in one way: it asks whether placeholders are left in it.
So a likeness may only relate types of which both have some or none has. The type of a parameter
that has is rewritten again by the next template, even by one without a type of its own, and a
likeness has to follow that too.
-/

namespace Raml

/-- How two entities may differ in their places for types, those for shapes and those of parameters
for texts, given what stood in the place before any template was merged into them. -/
structure Likeness where
  shape : Option Shape → Shape → Shape → Prop
  text : Option String → String → String → Prop

variable {L : Likeness}

/-- Whether two tables have the same keys, and `R` holds of what stands under each of them, given
an entry that stood there before any template, or that none did. -/
def Table.Alike {α : Type} (R : Option α → α → α → Prop) (own t t' : Table α) : Prop :=
  t.Matches (fun key a a' => ∃ o : Option α, (∀ x ∈ o, (key, x) ∈ own) ∧ R o a a') t'

/-! ## Entities alike -/

/-- Whether two parameters differ in their types alone. -/
structure Parameter.Alike (L : Likeness) (own : Option Parameter) (p p' : Parameter) : Prop where
  type : Option.Rel (L.text (own.bind Parameter.type)) p.type p'.type
  others : p' = { p with type := p'.type }

/-- Whether two bodies differ in their types alone. -/
structure Body.Alike (L : Likeness) (own : Option Body) (b b' : Body) : Prop where
  type : Option.Rel (L.shape (own.bind Body.type)) b.type b'.type
  items : Option.Rel (L.shape (own.bind Body.items)) b.items b'.items
  properties : Table.Alike L.shape (own.elim [] Body.properties) b.properties b'.properties
  headers : Table.Alike (Parameter.Alike L) (own.elim [] Body.headers) b.headers b'.headers
  others : b' = { b with
    type := b'.type, items := b'.items, properties := b'.properties, headers := b'.headers }

/-- Whether the bodies of two messages differ in their types alone. -/
structure Bodies.Alike (L : Likeness) (own : Option Bodies) (b b' : Bodies) : Prop where
  annotations : b'.annotations = b.annotations
  flat : Option.Rel (Body.Alike L (own.bind Bodies.flat)) b.flat b'.flat
  byMediaType : Table.Alike (Body.Alike L) (own.elim [] Bodies.byMediaType) b.byMediaType
    b'.byMediaType

/-- Whether two responses differ in their types alone. -/
structure Response.Alike (L : Likeness) (own : Option Response) (r r' : Response) : Prop where
  headers : Table.Alike (Parameter.Alike L) (own.elim [] Response.headers) r.headers r'.headers
  bodies : Bodies.Alike L (own.map Response.bodies) r.bodies r'.bodies
  others : r' = { r with headers := r'.headers, bodies := r'.bodies }

/-- Whether two methods differ in their types alone. -/
structure Method.Alike (L : Likeness) (own : Option Method) (m m' : Method) : Prop where
  queryParameters : Table.Alike (Parameter.Alike L) (own.elim [] Method.queryParameters)
    m.queryParameters m'.queryParameters
  headers : Table.Alike (Parameter.Alike L) (own.elim [] Method.headers) m.headers m'.headers
  queryString : Option.Rel (L.shape (own.bind Method.queryString)) m.queryString m'.queryString
  responses : Table.Alike (Response.Alike L) (own.elim [] Method.responses) m.responses m'.responses
  bodies : Bodies.Alike L (own.map Method.bodies) m.bodies m'.bodies
  others : m' = { m with
    queryParameters := m'.queryParameters, headers := m'.headers, queryString := m'.queryString
    responses := m'.responses, bodies := m'.bodies }

/-- Whether two resources differ in their types alone, those of their methods included. -/
structure Resource.Alike (L : Likeness) (own r r' : Resource) : Prop where
  uriParameters : Table.Alike (Parameter.Alike L) own.uriParameters r.uriParameters r'.uriParameters
  methods : Table.Alike (Method.Alike L) own.methods r.methods r'.methods
  others : r' = { r with uriParameters := r'.uriParameters, methods := r'.methods }

/-! ### Entities that say nothing -/

theorem Parameter.alike_named (own : Option Parameter) (name : String) :
    Parameter.Alike L own (.named name) (.named name) := ⟨.none, rfl⟩

theorem Body.alike_empty (own : Option Body) : Body.Alike L own .empty .empty :=
  ⟨.none, .none, .nil, .nil, rfl⟩

theorem Bodies.alike_empty (own : Option Bodies) : Bodies.Alike L own .empty .empty :=
  ⟨rfl, .none, .nil⟩

theorem Response.alike_ofCode (own : Option Response) (code : String) :
    Response.Alike L own (.ofCode code) (.ofCode code) := ⟨.nil, Bodies.alike_empty _, rfl⟩

theorem Method.alike_named (own : Option Method) (name : String) :
    Method.Alike L own (.named name) (.named name) :=
  ⟨.nil, .nil, .none, .nil, Bodies.alike_empty _, rfl⟩

/-! ### Entities that no template was merged into -/

/-- Whether a likeness lets what an entity says of its own stand. -/
structure Likeness.KeepsOwn (L : Likeness) : Prop where
  shape : ∀ s, L.shape (some s) s s
  text : ∀ t, L.text (some t) t t

theorem optionRel_own {α : Type} {R : Option α → α → α → Prop} (h : ∀ a, R (some a) a a) :
    ∀ o, Option.Rel (R o) o o
  | none => .none
  | some a => .some (h a)

/-- A table is like itself if each value is, as the document's own. -/
theorem Table.alike_refl {α : Type} {R : Option α → α → α → Prop} (h : ∀ a, R (some a) a a)
    (t : Table α) : Table.Alike R t t t := by
  refine List.forall₂_same.mpr fun e he => ⟨rfl, some e.2, ?_, h e.2⟩
  rintro _ ⟨⟩
  exact he

section Own

variable (hL : L.KeepsOwn)
include hL

theorem Parameter.alike_refl (p : Parameter) : Parameter.Alike L (some p) p p :=
  ⟨optionRel_own hL.text _, rfl⟩

theorem Body.alike_refl (b : Body) : Body.Alike L (some b) b b :=
  ⟨optionRel_own hL.shape _, optionRel_own hL.shape _, Table.alike_refl hL.shape _,
    Table.alike_refl (Parameter.alike_refl hL) _, rfl⟩

theorem Bodies.alike_refl (b : Bodies) : Bodies.Alike L (some b) b b :=
  ⟨rfl, optionRel_own (Body.alike_refl hL) _, Table.alike_refl (Body.alike_refl hL) _⟩

theorem Response.alike_refl (r : Response) : Response.Alike L (some r) r r :=
  ⟨Table.alike_refl (Parameter.alike_refl hL) _, r.bodies.alike_refl hL, rfl⟩

/-- A method is like itself as the document's own. -/
theorem Method.alike_refl (m : Method) : Method.Alike L (some m) m m :=
  ⟨Table.alike_refl (Parameter.alike_refl hL) _, Table.alike_refl (Parameter.alike_refl hL) _,
    optionRel_own hL.shape _, Table.alike_refl (Response.alike_refl hL) _,
    m.bodies.alike_refl hL, rfl⟩

/-- So is a resource. -/
theorem Resource.alike_refl (r : Resource) : Resource.Alike L r r r := by
  refine ⟨Table.alike_refl (Parameter.alike_refl hL) _,
    Table.alike_refl (Method.alike_refl hL) _, ?_⟩
  cases r
  rfl

end Own

/-! ## Two libraries -/

namespace Application

/-- The application under a library of the same name that declares other types. -/
def declaring (app : Application) (types : List String) : Application := { app with types }

/-- The text of a type with the names of the library qualified. -/
def typeText (app : Application) (t : String) : String :=
  if t.isEmpty || Shape.isSchema t.toList then t else (app.qualify (Shape.ofText t)).render

theorem typeName_eq (app : Application) (c p : Option String) : app.typeName c p =
    if Template.stands c then .ok c else (app.text c p).map fun t => t.map app.typeText := by
  rw [typeName]
  split
  · rfl
  · cases app.text c p with
    | error e => rfl
    | ok merged =>
      cases merged with
      | none => rfl
      | some t =>
        change (if _ then pure (some t) else pure (some _)) = Except.ok (some (app.typeText t))
        rw [typeText]
        split <;> rfl

/-- Whether placeholders are left in a shape does not depend on the library. -/
theorem hasBrackets_qualify {app : Application}
    (h : ∀ a ∈ app.aliasName?, Template.hasBrackets a = false) (s : Shape) :
    hasBrackets (app.qualify s).toValue = hasBrackets s.toValue := by
  rw [qualify]
  cases ha : app.aliasName? with
  | none => rfl
  | some a => exact Shape.hasBrackets_qualify (h a ha) s

/-- Whether placeholders are left in the text of a type does not depend on the library. -/
theorem hasBrackets_typeText {app : Application}
    (h : ∀ a ∈ app.aliasName?, Template.hasBrackets a = false) (t : String) :
    Template.hasBrackets (app.typeText t) = Template.hasBrackets t := by
  rw [typeText]
  split
  · rfl
  · rw [qualify, ← Shape.hasBrackets_render_ofText t]
    cases ha : app.aliasName? with
    | none => rfl
    | some a => exact Shape.hasBrackets_render_qualify (h a ha) _

end Application

open Application (hasBrackets typeText)

/-- Whether a likeness holds of what two libraries make of one type. -/
structure Likeness.Fits (L : Likeness) (app : Application) (types : List String) : Prop where
  qualify : ∀ own s, L.shape own (app.qualify s) ((app.declaring types).qualify s)
  brackets : ∀ {own s s'}, L.shape own s s' → hasBrackets s.toValue = hasBrackets s'.toValue
  typeText : ∀ own t, L.text own (app.typeText t) ((app.declaring types).typeText t)
  again : ∀ {own t t'}, L.text own t t' → Template.hasBrackets t = true →
    L.text own (app.typeText t) ((app.declaring types).typeText t')
  textBrackets : ∀ {own t t'}, L.text own t t' → Template.hasBrackets t = Template.hasBrackets t'
  empty : ∀ {own t t'}, L.text own t t' → (t = "" ↔ t' = "")

namespace Merge

variable {app : Application} {types : List String}

/-! ## Types -/

/-- A child without a text of its own keeps what it has if its template has none, and otherwise
takes the same as every other one. -/
theorem text_of_not_stands (app : Application) (p : Option String) :
    (∀ c, Template.stands c = false → app.text c p = .ok c) ∨
      ∃ x : Except Error String, ∀ c, Template.stands c = false → app.text c p = x.map some := by
  -- what the template says decides alone, as no text that does not stand has a say
  cases p with
  | none =>
    refine .inl fun c hc => ?_
    rw [Application.text, Template.substitute.eq_def, if_neg (by simp [hc])]
    rfl
  | some t =>
    cases hempty : t.isEmpty with
    | true =>
      refine .inl fun c hc => ?_
      rw [Application.text, Template.substitute.eq_def, if_neg (by simp [hc])]
      simp only [hempty, if_true]
      rfl
    | false =>
      refine .inr ⟨Application.filled (Template.instantiate app.dictionary t), fun c hc => ?_⟩
      rw [Application.text, Template.substitute.eq_def, if_neg (by simp [hc])]
      simp only [hempty, Bool.false_eq_true, if_false]
      cases Template.instantiate app.dictionary t <;> rfl

section Types

variable (hL : L.Fits app types)
include hL

/-- Whether a text stands does not depend on which of two like texts it is. -/
theorem stands_alike {own c c' : Option String} (hc : Option.Rel (L.text own) c c') :
    Template.stands c = Template.stands c' := by
  cases hc with
  | none => rfl
  | @some t t' ht =>
    have hempty : t.isEmpty = t'.isEmpty := by
      rw [Bool.eq_iff_iff, String.isEmpty_iff, String.isEmpty_iff, hL.empty ht]
    rw [Template.stands, Template.stands, hL.textBrackets ht, hempty]

/-- The type of a child that is left as it is, written anew. -/
theorem typeText_alike {own : Option String} {t t' : String} (ht : L.text own t t')
    (hopen : Template.stands (some t) = false) :
    L.text own (app.typeText t) ((app.declaring types).typeText t') := by
  by_cases hempty : t = ""
  · have hempty' := (hL.empty ht).mp hempty
    subst hempty hempty'
    exact ht
  · refine hL.again ht ?_
    simpa [Template.stands, hempty] using hopen

/-- The names of types that are merged with like ones are alike. -/
theorem typeName_alike {own c c' p r : Option String} (hc : Option.Rel (L.text own) c c')
    (hr : app.typeName c p = .ok r) :
    ∃ r', (app.declaring types).typeName c' p = .ok r' ∧ Option.Rel (L.text own) r r' := by
  have hstands := stands_alike hL hc
  rw [Application.typeName_eq] at hr ⊢
  rw [← hstands]
  -- what stands is kept as it is on both sides
  cases h : Template.stands c with
  | true =>
    rw [if_pos h] at hr
    cases hr
    exact ⟨c', rfl, hc⟩
  | false =>
    rw [if_neg (by simp [h])] at hr
    obtain ⟨merged, hmerged, rfl⟩ := map_eq_ok.mp hr
    have htext : (app.declaring types).text c' p = app.text c' p := rfl
    simp only [Bool.false_eq_true, if_false, htext]
    rcases text_of_not_stands app p with hkept | ⟨x, hx⟩
    · -- the template has no type, but what the child has is written anew
      rw [hkept c h] at hmerged
      rw [hkept c' (hstands ▸ h)]
      cases hmerged
      refine ⟨_, rfl, ?_⟩
      cases hc with
      | none => exact .none
      | some ht => exact .some (typeText_alike hL ht h)
    · rw [hx c h] at hmerged
      rw [hx c' (hstands ▸ h), hmerged]
      obtain ⟨t, -, rfl⟩ := map_eq_ok.mp hmerged
      exact ⟨_, rfl, .some (hL.typeText _ t)⟩

theorem instantiate_alike (own : Option Shape) {s r : Shape} (hr : app.instantiate s = .ok r) :
    ∃ r', (app.declaring types).instantiate s = .ok r' ∧ L.shape own r r' := by
  rw [Application.instantiate] at hr
  obtain ⟨v, hv, hr⟩ := bind_eq_ok.mp hr
  obtain ⟨s', hs', hr⟩ := bind_eq_ok.mp hr
  rw [← pure_eq_ok.mp hr]
  refine ⟨(app.declaring types).qualify s', ?_, hL.qualify own s'⟩
  rw [Application.instantiate]
  exact bind_eq_ok.mpr ⟨v, hv, bind_eq_ok.mpr ⟨s', hs', rfl⟩⟩

/-- Shapes that are merged with like ones are alike. -/
theorem shape_alike {own c c' p r : Option Shape} (hc : Option.Rel (L.shape own) c c')
    (hr : app.shape c p = .ok r) :
    ∃ r', (app.declaring types).shape c' p = .ok r' ∧ Option.Rel (L.shape own) r r' := by
  cases p with
  | none =>
    cases hr
    exact ⟨c', rfl, hc⟩
  | some p =>
    -- where no shape stands, one is made of the template's on both sides
    have hmade : (app.instantiate p).map some = .ok r → ∃ r',
        ((app.declaring types).instantiate p).map some = .ok r' ∧
          Option.Rel (L.shape own) r r' := by
      intro hr
      obtain ⟨s, hs, rfl⟩ := map_eq_ok.mp hr
      obtain ⟨s', hs', hlike⟩ := instantiate_alike hL own hs
      exact ⟨some s', map_eq_ok.mpr ⟨s', hs', rfl⟩, .some hlike⟩
    cases hc with
    | none => exact hmade hr
    | @some s s' hs =>
      rw [Application.shape] at hr ⊢
      rw [← hL.brackets hs]
      split at hr
      · rename_i hopen
        rw [if_pos hopen]
        exact hmade hr
      · rename_i hopen
        cases hr
        rw [if_neg hopen]
        exact ⟨some s', rfl, .some hs⟩

end Types

/-! ## Tables -/

section Tables

variable {α : Type} {R : Option α → α → α → Prop} {own c c' p r : Table α}

theorem has_alike (h : Table.Alike R own c c') (key : String) : c'.has key = c.has key := by
  rw [Bool.eq_iff_iff, Table.has_iff_mem_names, Table.has_iff_mem_names, h.names]

/-- A key goes to the same place in like tables. -/
theorem targetOf_alike (h : Table.Alike R own c c') (key : String) :
    targetOf c key = targetOf c' key := by
  rw [targetOf, targetOf]
  simp only [has_alike h]

/-- Tables that a template is merged into entry by entry, the entries merged alike. -/
theorem table_alike {merge merge' : α → α → Except Error α} {create : String → α}
    (hmerge : ∀ {o a a' b x}, R o a a' → merge a b = .ok x → ∃ x', merge' a' b = .ok x' ∧ R o x x')
    (hcreate : ∀ key, R none (create key) (create key)) (hc : Table.Alike R own c c')
    (hr : table app merge create c p = .ok r) :
    ∃ r', table (app.declaring types) merge' create c' p = .ok r' ∧ Table.Alike R own r r' := by
  -- along the template, with both tables growing side by side
  induction p generalizing c c' with
  | nil =>
    cases hr
    exact ⟨c', rfl, hc⟩
  | cons e rest ih =>
    obtain ⟨raw, b⟩ := e
    obtain ⟨key, hkey, ⟨hnone, hr⟩ | ⟨place, merged, hplace, hmerged, hr⟩⟩ :=
      table_cons_eq_ok.mp hr
    · obtain ⟨r', hr', hlike⟩ := ih hc hr
      rw [targetOf_alike hc] at hnone
      exact ⟨r', table_cons_eq_ok.mpr ⟨key, hkey, .inl ⟨hnone, hr'⟩⟩, hlike⟩
    · -- both tables have an entry in the place, or a new one is begun in both
      obtain ⟨o, ho, hentry⟩ : ∃ o : Option α, (∀ x ∈ o, (place, x) ∈ own) ∧
          R o ((c.get? place).getD (create place)) ((c'.get? place).getD (create place)) := by
        have hget : Option.Rel (fun a a' => ∃ o : Option α, (∀ x ∈ o, (place, x) ∈ own) ∧ R o a a')
            (c.get? place) (c'.get? place) := Table.Matches.get? hc
        generalize c.get? place = found, c'.get? place = found' at hget
        cases hget with
        | none => exact ⟨none, nofun, hcreate place⟩
        | some hR => exact hR
      obtain ⟨merged', hmerged', hR⟩ := hmerge hentry hmerged
      obtain ⟨r', hr', hlike⟩ := ih (hc.set ⟨o, ho, hR⟩) hr
      rw [targetOf_alike hc] at hplace
      exact ⟨r', table_cons_eq_ok.mpr ⟨key, hkey, .inr ⟨place, merged', hplace, hmerged', hr'⟩⟩,
        hlike⟩

/-- Tables that the entries of a template are added to, all made alike. -/
theorem additions_alike {make make' : α → Except Error α}
    (hmake : ∀ {b x}, make b = .ok x → ∃ x', make' b = .ok x' ∧ R none x x')
    (hc : Table.Alike R own c c') (hr : additions app make c p = .ok r) :
    ∃ r', additions (app.declaring types) make' c' p = .ok r' ∧ Table.Alike R own r r' := by
  -- along the template; an entry that is there in one table is there in the other
  induction p generalizing c c' with
  | nil =>
    cases hr
    exact ⟨c', rfl, hc⟩
  | cons e rest ih =>
    obtain ⟨raw, b⟩ := e
    obtain ⟨key, hkey, ⟨hthere, hr⟩ | ⟨place, x, hplace, hnew, hx, hr⟩⟩ :=
      additions_cons_eq_ok.mp hr
    · obtain ⟨r', hr', hlike⟩ := ih hc hr
      simp only [targetOf_alike hc, ← has_alike hc] at hthere
      exact ⟨r', additions_cons_eq_ok.mpr ⟨key, hkey, .inl ⟨hthere, hr'⟩⟩, hlike⟩
    · obtain ⟨x', hx', hR⟩ := hmake hx
      obtain ⟨r', hr', hlike⟩ := ih (hc.set ⟨none, nofun, hR⟩) hr
      rw [targetOf_alike hc] at hplace
      rw [← has_alike hc] at hnew
      exact ⟨r', additions_cons_eq_ok.mpr ⟨key, hkey, .inr ⟨place, x', hplace, hnew, hx', hr'⟩⟩,
        hlike⟩

theorem values_declaring (c p : Table Value) :
    values (app.declaring types) c p = values app c p := by
  induction p generalizing c with
  | nil => rfl
  | cons e rest ih =>
    obtain ⟨key, v⟩ := e
    rw [values, values, ih]
    simp only [ih]
    rfl

end Tables

/-! ## Entities -/

section Entities

variable (hL : L.Fits app types)
include hL

/-- Parameters that are merged with like ones are alike. -/
theorem parameter_alike {own : Option Parameter} {c c' p r : Parameter}
    (hc : Parameter.Alike L own c c') (hr : parameter app c p = .ok r) :
    ∃ r', parameter (app.declaring types) c' p = .ok r' ∧ Parameter.Alike L own r r' := by
  obtain ⟨htype, hothers⟩ := hc
  have hm := parameter_eq_ok.mp hr
  obtain ⟨type', hr', hlike⟩ := typeName_alike hL htype hm.type
  refine ⟨{ r with type := type' }, parameter_eq_ok.mpr ?_, hlike, rfl⟩
  rw [hothers]
  exact { hm with type := hr', annotations := (values_declaring ..).trans hm.annotations }

theorem parameters_alike {own c c' p r : Table Parameter}
    (hc : Table.Alike (Parameter.Alike L) own c c') (hr : parameters app c p = .ok r) :
    ∃ r', parameters (app.declaring types) c' p = .ok r' ∧
      Table.Alike (Parameter.Alike L) own r r' :=
  table_alike (parameter_alike hL) (Parameter.alike_named none) hc hr

/-- Bodies that are merged with like ones are alike. -/
theorem body_alike {own : Option Body} {c c' p r : Body} (hc : Body.Alike L own c c')
    (hr : body app c p = .ok r) :
    ∃ r', body (app.declaring types) c' p = .ok r' ∧ Body.Alike L own r r' := by
  obtain ⟨htype, hitems, hproperties, hheaders, hothers⟩ := hc
  have hm := body_eq_ok.mp hr
  obtain ⟨type', htype', ht⟩ := shape_alike hL htype hm.type
  obtain ⟨items', hitems', hi⟩ := shape_alike hL hitems hm.items
  obtain ⟨properties', hproperties', hp⟩ :=
    additions_alike (instantiate_alike hL none) hproperties hm.properties
  obtain ⟨headers', hheaders', hh⟩ := parameters_alike hL hheaders hm.headers
  refine ⟨{ r with type := type', items := items', properties := properties', headers := headers' },
    body_eq_ok.mpr ?_, ht, hi, hp, hh, rfl⟩
  rw [hothers]
  exact { hm with
    type := htype', items := hitems', properties := hproperties', headers := hheaders'
    facets := (values_declaring ..).trans hm.facets
    annotations := (values_declaring ..).trans hm.annotations }

theorem flatBody_alike {own c c' p r : Option Body} (hc : Option.Rel (Body.Alike L own) c c')
    (hr : flatBody app c p = .ok r) :
    ∃ r', flatBody (app.declaring types) c' p = .ok r' ∧ Option.Rel (Body.Alike L own) r r' := by
  cases p with
  | none =>
    cases hr
    exact ⟨c', rfl, hc⟩
  | some p =>
    obtain ⟨b, hb, rfl⟩ := map_eq_ok.mp hr
    have hchild : Body.Alike L own (c.getD .empty) (c'.getD .empty) := by
      cases hc with
      | none => exact Body.alike_empty own
      | some h => exact h
    obtain ⟨b', hb', hlike⟩ := body_alike hL hchild hb
    exact ⟨some b', map_eq_ok.mpr ⟨b', hb', rfl⟩, .some hlike⟩

theorem bodies_alike {own : Option Bodies} {c c' p r : Bodies} (hc : Bodies.Alike L own c c')
    (hr : bodies app c p = .ok r) :
    ∃ r', bodies (app.declaring types) c' p = .ok r' ∧ Bodies.Alike L own r r' := by
  obtain ⟨hannotations, hflat, hmedia⟩ := hc
  have hm := bodies_eq_ok.mp hr
  obtain ⟨flat, hflat', hf⟩ := flatBody_alike hL hflat hm.flat
  obtain ⟨byMediaType, hmedia', ht⟩ :=
    table_alike (body_alike hL) (fun _ => Body.alike_empty none) hmedia hm.byMediaType
  refine ⟨{ annotations := r.annotations, flat, byMediaType }, bodies_eq_ok.mpr ?_, rfl, hf, ht⟩
  refine ⟨hflat', hmedia', ?_⟩
  rw [values_declaring, hannotations]
  exact hm.annotations

/-- Responses that are merged with like ones are alike. -/
theorem response_alike {own : Option Response} {c c' p r : Response}
    (hc : Response.Alike L own c c') (hr : response app c p = .ok r) :
    ∃ r', response (app.declaring types) c' p = .ok r' ∧ Response.Alike L own r r' := by
  obtain ⟨hheaders, hbodies, hothers⟩ := hc
  have hm := response_eq_ok.mp hr
  obtain ⟨headers', hheaders', hh⟩ := parameters_alike hL hheaders hm.headers
  obtain ⟨bodies', hbodies', hb⟩ := bodies_alike hL hbodies hm.bodies
  refine ⟨{ r with headers := headers', bodies := bodies' }, response_eq_ok.mpr ?_, hh, hb, rfl⟩
  refine ⟨?_, ?_, hheaders', hbodies', ?_⟩
  · rw [hothers]
    exact hm.code
  · rw [hothers]
    exact hm.description
  · rw [hothers, values_declaring]
    exact hm.annotations

/-- A template that can be merged into a method under one library can be so under the other, into a
method alike, with results alike. -/
theorem method_alike {own : Option Method} {c c' p r : Method} (hc : Method.Alike L own c c')
    (hr : method app c p = .ok r) :
    ∃ r', method (app.declaring types) c' p = .ok r' ∧ Method.Alike L own r r' := by
  obtain ⟨hquery, hheaders, hstring, hresponses, hbodies, hothers⟩ := hc
  have hm := method_eq_ok.mp hr
  obtain ⟨query', hquery', hq⟩ := parameters_alike hL hquery hm.queryParameters
  obtain ⟨headers', hheaders', hh⟩ := parameters_alike hL hheaders hm.headers
  obtain ⟨string', hstring', hs⟩ := shape_alike hL hstring hm.queryString
  obtain ⟨responses', hresponses', hrs⟩ :=
    table_alike (response_alike hL) (Response.alike_ofCode none) hresponses hm.responses
  obtain ⟨bodies', hbodies', hb⟩ := bodies_alike hL hbodies hm.bodies
  refine ⟨{ r with
    queryParameters := query', headers := headers', queryString := string'
    responses := responses', bodies := bodies' }, method_eq_ok.mpr ?_, hq, hh, hs, hrs, hb, rfl⟩
  rw [hothers]
  exact { hm with
    queryParameters := hquery', headers := hheaders', queryString := hstring'
    responses := hresponses', bodies := hbodies'
    annotations := (values_declaring ..).trans hm.annotations }

/-- The same of the fields of a resource that a resource type is merged into. -/
theorem resource_alike {own c c' r : Resource} {p : ResourceType}
    (hc : Resource.Alike L own c c') (hr : resource app c p = .ok r) :
    ∃ r', resource (app.declaring types) c' p = .ok r' ∧ Resource.Alike L own r r' := by
  obtain ⟨huri, hmethods, hothers⟩ := hc
  have hm := resource_eq_ok.mp hr
  obtain ⟨uri', huri', hu⟩ := parameters_alike hL huri hm.uriParameters
  have hkept : r.methods = c.methods := by rw [hm.others]
  refine ⟨{ r with uriParameters := uri', methods := c'.methods }, resource_eq_ok.mpr ?_,
    hu, hkept ▸ hmethods, rfl⟩
  rw [hothers]
  exact { hm with
    others := by rw [hm.others]
    uriParameters := huri'
    annotations := (values_declaring ..).trans hm.annotations }

end Entities

end Merge
end Raml
