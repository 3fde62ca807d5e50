import Raml.Proofs.Document.Texts
import Raml.Proofs.Table

/-!
# What an entity says for good

A text with the brackets of a placeholder is there until a template is merged in; every other text
stays. `standing` takes out of an entity the texts and shapes that may give way, and leaves the rest
of it: its entries, whose keys no template changes, its facets, its annotations, and each text that
has no brackets. Nothing is taken out of an entity whose texts are plain (`standing_of_isPlain`).
-/

namespace Raml

/-- A text that stays. -/
def textStanding (s : Option String) : Option String := s.filter fun t => !Template.hasBrackets t

/-- A node that stays: a text may give way, and nothing else does. -/
def Value.standing : Value → Value
  | .str t => if Template.hasBrackets t then .null else .str t
  | v => v

/-- A field that stays: as long as it is a text, it has brackets. -/
def Templated.standing {α : Type} : Option (Templated α) → Option (Templated α)
  | some (.exact a) => some (.exact a)
  | _ => none

/-- A shape that stays. One with brackets anywhere in what is written for it may give way. -/
def Shape.standing (s : Option Shape) : Option Shape :=
  s.filter fun s => !Application.hasBrackets s.toValue

/-- What a parameter says for good. -/
def Parameter.standing (p : Parameter) : Parameter :=
  { p with
    type := textStanding p.type
    displayName := textStanding p.displayName
    description := textStanding p.description
    pattern := textStanding p.pattern
    minLength := Templated.standing p.minLength
    maxLength := Templated.standing p.maxLength
    minimum := Templated.standing p.minimum
    maximum := Templated.standing p.maximum
    format := textStanding p.format
    sample := p.sample.standing
    fallback := p.fallback.standing
    repeats := Templated.standing p.repeats
    required := Templated.standing p.required
    items := p.items.standing }

/-- What parameters say for good. -/
def Parameter.allStanding (ps : Table Parameter) : Table Parameter :=
  ps.mapValues Parameter.standing

/-- What a body says for good. -/
def Body.standing (b : Body) : Body :=
  { b with
    type := Shape.standing b.type
    items := Shape.standing b.items
    schema := textStanding b.schema
    description := textStanding b.description
    sample := b.sample.standing
    headers := Parameter.allStanding b.headers }

/-- What the bodies of a message say for good. -/
def Bodies.standing (b : Bodies) : Bodies :=
  { b with
    flat := b.flat.map Body.standing
    byMediaType := b.byMediaType.mapValues Body.standing }

/-- What a response says for good. -/
def Response.standing (r : Response) : Response :=
  { r with
    description := textStanding r.description
    headers := Parameter.allStanding r.headers
    bodies := r.bodies.standing }

/-- What a method says for good. -/
def Method.standing (m : Method) : Method :=
  { m with
    displayName := textStanding m.displayName
    description := textStanding m.description
    queryParameters := Parameter.allStanding m.queryParameters
    headers := Parameter.allStanding m.headers
    queryString := Shape.standing m.queryString
    responses := m.responses.mapValues Response.standing
    bodies := m.bodies.standing }

/-- What a resource says for good in the fields that resource types add to. -/
def Resource.standing (r : Resource) : Resource :=
  { r with
    displayName := textStanding r.displayName
    description := textStanding r.description
    uriParameters := Parameter.allStanding r.uriParameters }

/-! ## Taking out single texts -/

/-- What stands of a text is the text, unless it holds brackets. -/
theorem textStanding_eq_some {s : Option String} {t : String} :
    textStanding s = some t ↔ s = some t ∧ Template.hasBrackets t = false := by
  simp [textStanding, Option.filter_eq_some_iff]

/-- What stands of a value holds no brackets. -/
theorem Value.hasBrackets_of_standing_eq {v : Value} {t : String} (h : v.standing = .str t) :
    Template.hasBrackets t = false := by
  cases v with
  | str s =>
    rw [standing] at h
    split at h
    · cases h
    · rename_i hs
      obtain rfl := Value.str.inj h
      exact eq_false_of_ne_true hs
  | _ => cases h

theorem Templated.standing_ne_text {α : Type} {x : Option (Templated α)} {t : String}
    {ht : Template.hasBrackets t = true} : Templated.standing x ≠ some (.text t ht) := by
  rcases x with _ | ⟨_ | _⟩ <;> nofun

theorem Shape.standing_eq_some {s : Option Shape} {t : Shape} :
    Shape.standing s = some t ↔ s = some t ∧ Application.hasBrackets t.toValue = false := by
  simp [Shape.standing, Option.filter_eq_some_iff]

/-! ## Plain entities -/

/-- A plain text stands. -/
theorem textStanding_of_isPlain {s : Option String} (h : IsPlain s.toList) :
    textStanding s = s := by
  cases s with
  | none => rfl
  | some t => exact textStanding_eq_some.mpr ⟨rfl, h t (List.mem_singleton_self t)⟩

/-- A value whose texts are plain stands. -/
theorem Value.standing_of_isPlain {v : Value} (h : IsPlain v.texts) : v.standing = v := by
  cases v with
  | str t =>
    have ht : Template.hasBrackets t = false := h t (List.mem_singleton_self t)
    simp [standing, ht]
  | _ => rfl

theorem Templated.standing_of_isPlain {α : Type} {x : Option (Templated α)}
    (h : IsPlain (Templated.texts x)) : Templated.standing x = x := by
  cases x with
  | none => rfl
  | some x =>
    cases x with
    | exact a => rfl
    | text t ht => exact absurd ht (by simp [h t (List.mem_singleton_self t)])

/-- A shape whose texts are plain stands. -/
theorem Shape.standing_of_isPlain {s : Option Shape} (h : IsPlain (Shape.textsOfOption s)) :
    Shape.standing s = s := by
  cases s with
  | none => rfl
  | some s => exact Shape.standing_eq_some.mpr ⟨rfl, Shape.hasBrackets_toValue s h⟩

theorem Parameter.standing_of_isPlain {p : Parameter} (h : IsPlain p.texts) : p.standing = p := by
  simp only [texts, isPlain_append] at h
  simp [standing, h, textStanding_of_isPlain, Value.standing_of_isPlain,
    Templated.standing_of_isPlain]

/-- Nothing is taken out of a plain table. -/
theorem Table.standing_of_isPlain {α : Type} {f : α → List String} {g : α → α} {t : Table α}
    (hg : ∀ a, IsPlain (f a) → g a = a) (h : IsPlain (t.texts f)) : t.mapValues g = t :=
  Table.mapValues_eq_self fun e he => hg e.2 (isPlain_of_mem_table h he)

theorem Parameter.allStanding_of_isPlain {ps : Table Parameter}
    (h : IsPlain (Table.texts Parameter.texts ps)) : Parameter.allStanding ps = ps :=
  Table.standing_of_isPlain (fun _ => Parameter.standing_of_isPlain) h

theorem Body.standing_of_isPlain {b : Body} (h : IsPlain b.texts) : b.standing = b := by
  simp only [texts, isPlain_append] at h
  simp [standing, h, textStanding_of_isPlain, Value.standing_of_isPlain,
    Shape.standing_of_isPlain, Parameter.allStanding_of_isPlain]

theorem Bodies.standing_of_isPlain {b : Bodies} (h : IsPlain b.texts) : b.standing = b := by
  obtain ⟨annotations, flat, byMediaType⟩ := b
  simp only [texts, isPlain_append] at h
  have hflat : flat.map Body.standing = flat := by
    cases flat with
    | none => rfl
    | some b => exact congrArg some (Body.standing_of_isPlain (by simpa using h.1.2))
  have hmedia : byMediaType.mapValues Body.standing = byMediaType :=
    Table.standing_of_isPlain (fun _ => Body.standing_of_isPlain) h.2
  simp only [standing, hflat, hmedia]

theorem Response.standing_of_isPlain {r : Response} (h : IsPlain r.texts) : r.standing = r := by
  simp only [texts, isPlain_append] at h
  simp [standing, h, textStanding_of_isPlain, Parameter.allStanding_of_isPlain,
    Bodies.standing_of_isPlain]

/-- A method whose texts are plain stands as a whole. -/
theorem Method.standing_of_isPlain {m : Method} (h : IsPlain m.texts) : m.standing = m := by
  simp only [texts, isPlain_append] at h
  have hresponses : m.responses.mapValues Response.standing = m.responses :=
    Table.standing_of_isPlain (fun _ => Response.standing_of_isPlain) (by simp [h])
  simp [standing, h, hresponses, textStanding_of_isPlain, Shape.standing_of_isPlain,
    Parameter.allStanding_of_isPlain, Bodies.standing_of_isPlain]

theorem Resource.standing_of_isPlain {r : Resource} (h : IsPlain r.ownTexts) : r.standing = r := by
  cases r
  simp only [ownTexts, isPlain_append] at h
  simp [standing, h, textStanding_of_isPlain, Parameter.allStanding_of_isPlain]

end Raml
