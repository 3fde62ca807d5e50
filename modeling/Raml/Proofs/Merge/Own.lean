import Raml.Proofs.Document.Facets
import Raml.Proofs.Merge.Filled
import Raml.Proofs.Template.Spell

/-!
# The errors of a merge

A merge fills in texts, gives them back the kind of value that a field holds, and reads shapes anew.
Five things keep it from doing so. An unknown inflector and a text that is no value of its field
have errors of the language. A word without the first letter that it needs, a value without a text
and a declaration that has become something else have none: they are what `Filling.CanFill` rules
out, for the texts and the facets of what is merged. With these out of the way every merge
`FailsOwn`, field by field.

What a merge leaves behind can be merged again without values: the facets of its shapes stay apart
from fields (`method_facetsApart`), since every shape is one of the child or was just read.
-/

namespace Raml

open Shape (FacetsApart staysFacet)
open Template (Dictionary IsSpellable)

variable {α β : Type}

/-! ## Steps that fail only with the language's own errors -/

/-- Whether a step fails with none but the language's own errors. -/
def FailsOwn (x : Except Error α) : Prop := ∀ e, x = .error e → e.isOwn = true

namespace FailsOwn

theorem ok (a : α) : FailsOwn (.ok a : Except Error α) := nofun

theorem error {e : Error} (h : e.isOwn = true) : FailsOwn (.error e : Except Error α) := by
  rintro _ ⟨⟩
  exact h

/-- A sequence fails with errors of the language if both of its steps do. -/
theorem bind {x : Except Error α} {f : α → Except Error β} (hx : FailsOwn x)
    (hf : ∀ a, x = .ok a → FailsOwn (f a)) : FailsOwn (x >>= f) := by
  intro e he
  rcases bind_eq_error.mp he with he | ⟨a, ha, he⟩
  · exact hx e he
  · exact hf a ha e he

theorem map {x : Except Error α} (f : α → β) (hx : FailsOwn x) : FailsOwn (x.map f) :=
  fun e he => hx e (map_eq_error.mp he)

theorem mapM {f : α → Except Error β} {as : List α} (h : ∀ a ∈ as, FailsOwn (f a)) :
    FailsOwn (as.mapM f) := by
  induction as with
  | nil => exact ok []
  | cons a as ih =>
    rw [List.forall_mem_cons] at h
    rw [List.mapM_cons]
    exact bind h.1 fun b _ => bind (ih h.2) fun bs _ => ok (b :: bs)

/-- Along a run of steps each of which fails only so from where the others lead. -/
theorem foldlM {f : β → α → Except Error β} {I : β → Prop} {as : List α}
    (h : ∀ a ∈ as, ∀ b, I b → FailsOwn (f b a) ∧ ∀ b', f b a = .ok b' → I b') {b : β} (hb : I b) :
    FailsOwn (as.foldlM f b) := by
  induction as generalizing b with
  | nil => exact ok b
  | cons a as ih =>
    rw [List.forall_mem_cons] at h
    rw [List.foldlM_cons]
    exact bind (h.1 b hb).1 fun b' hb' => ih h.2 ((h.1 b hb).2 b' hb')

theorem mapValuesM {f : α → Except Error β} {t : Table α} (h : ∀ e ∈ t, FailsOwn (f e.2)) :
    FailsOwn (Table.mapValuesM f t) := by
  induction t with
  | nil => exact ok []
  | cons e t ih =>
    rw [List.forall_mem_cons] at h
    rw [Table.mapValuesM]
    exact bind h.1 fun _ _ => bind (ih h.2) fun _ _ => ok _

end FailsOwn

/-! ## What is filled in -/

/-- Texts that are filled in with the same values, and the names of the facets among them. -/
structure Filling where
  values : Dictionary
  texts : List String
  facets : List String

/-- The texts in the fields of a resource type that go to a resource, methods apart. -/
def ResourceType.ownTexts (r : ResourceType) : List String :=
  Table.texts Value.texts r.annotations ++ r.displayName.toList ++ r.description.toList ++
    Table.texts Parameter.texts r.uriParameters ++
    r.securedBy.flatMap fun c => c.toList.flatMap Choice.texts

/-- Whether every value has a text where it needs one, no word lacks a first letter where it needs
one, and no facet comes to stand in the place of a field. -/
structure Filling.CanFill (f : Filling) : Prop where
  texts : ∀ t ∈ f.texts, IsSpellable f.values t
  facets : ∀ n ∈ f.facets, staysFacet f.values n = true

theorem Filling.canFill_iff {f : Filling} : f.CanFill ↔
    (∀ t ∈ f.texts, IsSpellable f.values t) ∧ ∀ n ∈ f.facets, staysFacet f.values n = true :=
  ⟨fun h => ⟨h.texts, h.facets⟩, fun h => ⟨h.1, h.2⟩⟩

instance (f : Filling) : Decidable f.CanFill := decidable_of_iff _ Filling.canFill_iff.symm

/-- Without values anything can be filled in whose facets are apart from fields. -/
theorem Filling.canFill_empty {texts facets : List String} (h : FacetsApart facets) :
    (Filling.mk [] texts facets).CanFill := by
  refine ⟨fun t _ => Template.isSpellable_empty t, fun n hn => ?_⟩
  rw [staysFacet, Template.instantiate_empty]
  simpa using h n hn

/-! ## Nodes -/

section Expand

variable {d : Dictionary}

/-- A text that can be spelled is filled in, or there is an error of the language. -/
theorem Template.instantiate_failsOwn {s : String} (h : IsSpellable d s) :
    FailsOwn (Application.filled (instantiate d s)) := by
  intro e he
  obtain ⟨fault, hfault, rfl⟩ := mapError_eq_error.mp he
  obtain ⟨name, rfl⟩ := h.exists_unknown hfault
  rfl

theorem Application.filled_bind {x : Except Template.Fault α} {f : α → Except Template.Fault β} :
    filled (x >>= f) = filled x >>= fun a => filled (f a) := by
  cases x <;> rfl

theorem Application.filled_map {x : Except Template.Fault α} {f : α → β} :
    filled (x.map f) = (filled x).map f := by
  cases x <;> rfl

mutual

/-- A node is filled in unless an inflector in it is unknown. -/
theorem Template.expand_failsOwn : ∀ v : Value, (∀ t ∈ v.texts, IsSpellable d t) →
    FailsOwn (Application.filled (expand d v))
  | .str s, h => by
      rw [expand, Application.filled_map]
      exact (instantiate_failsOwn (h s (List.mem_singleton_self s))).map _
  | .list items, h => by
      rw [expand, Application.filled_map]
      exact (expandItems_failsOwn items h).map _
  | .map entries, h => by
      rw [expand, Application.filled_map]
      exact (expandEntries_failsOwn entries h).map _
  | .null, _ | .bool _, _ | .int _, _ | .float _, _ | .bytes _, _ | .moment _, _
  | .pair _ _, _ | .set _, _ => FailsOwn.ok _

theorem Template.expandItems_failsOwn : ∀ items : List Value,
    (∀ t ∈ Value.textsOfItems items, IsSpellable d t) →
    FailsOwn (Application.filled (expandItems d items))
  | [], _ => FailsOwn.ok []
  | v :: rest, h => by
      rw [Value.textsOfItems, List.forall_mem_append] at h
      rw [expandItems, Application.filled_bind]
      refine (expand_failsOwn v h.1).bind fun here _ => ?_
      rw [Application.filled_bind]
      exact (expandItems_failsOwn rest h.2).bind fun there _ => .ok (here :: there)

theorem Template.expandEntries_failsOwn : ∀ entries : List (Value × Value),
    (∀ t ∈ Value.textsOfEntries entries, IsSpellable d t) →
    FailsOwn (Application.filled (expandEntries d entries))
  | [], _ => FailsOwn.ok []
  | (k, v) :: rest, h => by
      rw [Value.textsOfEntries, List.forall_mem_append, List.forall_mem_append] at h
      rw [expandEntries, Application.filled_bind]
      refine (expand_failsOwn k h.1.1).bind fun key _ => ?_
      rw [Application.filled_bind]
      refine (expand_failsOwn v h.1.2).bind fun value _ => ?_
      rw [Application.filled_bind]
      exact (expandEntries_failsOwn rest h.2).bind fun there _ => .ok ((key, value) :: there)

end

end Expand

/-! ## Fields -/

namespace Merge

variable {app : Application}

theorem text_failsOwn (c : Option String) {p : Option String}
    (h : ∀ t ∈ p.toList, IsSpellable app.dictionary t) : FailsOwn (app.text c p) := by
  rw [Application.text, Template.substitute.eq_def]
  split
  · exact .ok c
  · cases p with
    | none => exact .ok c
    | some t =>
      dsimp only
      split
      · exact .ok c
      · rw [Application.filled_map]
        exact (Template.instantiate_failsOwn (h t (List.mem_singleton_self t))).map some

/-- So it is with a value whose texts can be spelled. -/
theorem value_failsOwn {v : Value} (h : ∀ t ∈ v.texts, IsSpellable app.dictionary t) :
    FailsOwn (app.value v) := Template.expand_failsOwn v h

theorem typeName_failsOwn (c : Option String) {p : Option String}
    (h : ∀ t ∈ p.toList, IsSpellable app.dictionary t) : FailsOwn (app.typeName c p) := by
  rw [Application.typeName]
  split
  · exact .ok c
  · refine (text_failsOwn c h).bind fun merged _ => ?_
    cases merged with
    | none => exact .ok none
    | some t =>
      dsimp only
      split <;> exact .ok _

theorem name_failsOwn {raw : String} (h : IsSpellable app.dictionary raw) :
    FailsOwn (app.name raw) := by
  refine (text_failsOwn none (by simpa using h)).bind fun s _ => ?_
  cases s <;> exact .ok _

/-- A shape of a template can be read anew if its facets are apart from fields. -/
theorem instantiate_failsOwn {s : Shape} (htexts : ∀ t ∈ s.texts, IsSpellable app.dictionary t)
    (hfacets : ∀ n ∈ s.facetNames, staysFacet app.dictionary n = true) :
    FailsOwn (app.instantiate s) := by
  -- the texts of the node are put together from those of the shape, placeholder by placeholder
  have hnode := Shape.forall_toValue (Template.isLocal_isSpellable app.dictionary) s htexts
  refine (value_failsOwn hnode).bind fun v hv => ?_
  obtain ⟨shape, hshape⟩ := Shape.willBeShape_toValue s hfacets v (mapError_eq_ok.mp hv)
  rw [hshape]
  exact .ok _

/-- So it is with a shape, if its facets stay facets. -/
theorem shape_failsOwn (c : Option Shape) {p : Option Shape}
    (htexts : ∀ t ∈ Shape.textsOfOption p, IsSpellable app.dictionary t)
    (hfacets : ∀ n ∈ Shape.facetNamesOfOption p, staysFacet app.dictionary n = true) :
    FailsOwn (app.shape c p) := by
  cases p with
  | none => exact .ok c
  | some p =>
    have hown : FailsOwn ((app.instantiate p).map some) :=
      (instantiate_failsOwn htexts hfacets).map some
    cases c with
    | none => exact hown
    | some c =>
      rw [Application.shape]
      split
      · exact hown
      · exact .ok _

/-- Reading a filled text as another kind of value fails with an error of the language. -/
theorem retype_failsOwn (k : Kind α) (label field : String) (s : Option String) :
    FailsOwn (retype k label field s) := by
  rw [retype.eq_def]
  split
  · exact .ok none
  · split
    · exact .ok _
    · split
      · exact .ok _
      · exact .error rfl

theorem templated_failsOwn (k : Kind α) (label field : String) (c : Option (Templated α))
    {p : Option (Templated α)} (h : ∀ t ∈ Templated.texts p, IsSpellable app.dictionary t) :
    FailsOwn (templated app k label field c p) := by
  rw [templated.eq_def]
  split
  · exact .ok _
  · exact (text_failsOwn (p := some _) _ h).bind fun s _ => retype_failsOwn k label field s
  · exact (text_failsOwn (p := some _) _ h).bind fun s _ => retype_failsOwn k label field s
  · exact .ok _
  · exact .ok _
  · exact .ok _

theorem anything_failsOwn (c : Value) {p : Value}
    (h : ∀ t ∈ p.texts, IsSpellable app.dictionary t) : FailsOwn (anything app c p) := by
  rw [anything.eq_def]
  split
  · exact .ok c
  · exact (text_failsOwn (p := some _) _ h).bind fun _ _ => .ok _
  · exact (text_failsOwn (p := some _) _ h).bind fun _ _ => .ok _
  · exact .ok c
  · exact value_failsOwn h
  · exact .ok c

theorem choices_failsOwn (c : Option (List Value)) {p : Option (List Value)}
    (h : ∀ t ∈ (p.getD []).flatMap Value.texts, IsSpellable app.dictionary t) :
    FailsOwn (choices app c p) := by
  rw [List.forall_mem_flatMap] at h
  rw [choices.eq_def]
  split
  · exact .ok _
  · exact (FailsOwn.mapM fun v hv => value_failsOwn (h v hv)).bind fun _ _ => .ok _
  · exact .ok _

theorem values_failsOwn (c : Table Value) {p : Table Value}
    (h : ∀ t ∈ p.texts Value.texts, IsSpellable app.dictionary t) :
    FailsOwn (values app c p) := by
  induction p generalizing c with
  | nil => exact .ok c
  | cons e p ih =>
    obtain ⟨key, v⟩ := e
    rw [Table.texts, List.flatMap_cons, List.forall_mem_append, List.forall_mem_cons] at h
    rw [values]
    split
    · exact ih c h.2
    · exact (value_failsOwn h.1.2).bind fun v' _ => ih _ h.2

/-! ## Tables -/

theorem target_failsOwn (children : Table α) {raw : String} (h : IsSpellable app.dictionary raw) :
    FailsOwn (target app children raw) := (name_failsOwn h).bind fun _ _ => .ok _

/-- A table fails as its keys and its values do. -/
theorem table_failsOwn {merge : α → α → Except Error α} {create : String → α} {f : α → List String}
    (c : Table α) {p : Table α} (h : ∀ t ∈ p.texts f, IsSpellable app.dictionary t)
    (hmerge : ∀ e ∈ p, (∀ t ∈ f e.2, IsSpellable app.dictionary t) → ∀ a, FailsOwn (merge a e.2)) :
    FailsOwn (table app merge create c p) := by
  induction p generalizing c with
  | nil => exact .ok c
  | cons e p ih =>
    obtain ⟨raw, parent⟩ := e
    rw [Table.texts, List.flatMap_cons, List.forall_mem_append, List.forall_mem_cons] at h
    rw [List.forall_mem_cons] at hmerge
    refine (target_failsOwn c h.1.1).bind fun key _ => ?_
    cases key with
    | none => exact ih c h.2 hmerge.2
    | some key => exact (hmerge.1 h.1.2 _).bind fun merged _ => ih _ h.2 hmerge.2

theorem additions_failsOwn {make : α → Except Error α} {f : α → List String} (c : Table α)
    {p : Table α} (h : ∀ t ∈ p.texts f, IsSpellable app.dictionary t)
    (hmake : ∀ e ∈ p, (∀ t ∈ f e.2, IsSpellable app.dictionary t) → FailsOwn (make e.2)) :
    FailsOwn (additions app make c p) := by
  induction p generalizing c with
  | nil => exact .ok c
  | cons e p ih =>
    obtain ⟨raw, parent⟩ := e
    rw [Table.texts, List.flatMap_cons, List.forall_mem_append, List.forall_mem_cons] at h
    rw [List.forall_mem_cons] at hmake
    refine (target_failsOwn c h.1.1).bind fun key _ => ?_
    cases key with
    | none => exact ih c h.2 hmake.2
    | some key =>
      dsimp only
      split
      · exact ih c h.2 hmake.2
      · exact (hmake.1 h.1.2).bind fun a _ => ih _ h.2 hmake.2

/-! ## Entities -/

/-- A parameter whose texts can be spelled is merged, or there is an error of the language. -/
theorem parameter_failsOwn (c : Parameter) {p : Parameter}
    (h : ∀ t ∈ p.texts, IsSpellable app.dictionary t) : FailsOwn (parameter app c p) := by
  simp only [Parameter.texts, List.forall_mem_append] at h
  obtain ⟨⟨⟨⟨⟨⟨⟨⟨⟨⟨⟨⟨⟨⟨⟨⟨hannotations, -⟩, hdisplay⟩, hdescription⟩, htype⟩, hchoices⟩, hpattern⟩,
    hminLength⟩, hmaxLength⟩, hminimum⟩, hmaximum⟩, hformat⟩, hsample⟩, hfallback⟩, hrepeats⟩,
    hrequired⟩, hitems⟩ := h
  -- field by field, in the order in which the merge goes through them
  rw [parameter]
  refine (typeName_failsOwn _ htype).bind fun _ _ => ?_
  refine (text_failsOwn _ hdisplay).bind fun _ _ => ?_
  refine (text_failsOwn _ hdescription).bind fun _ _ => ?_
  refine (choices_failsOwn _ hchoices).bind fun _ _ => ?_
  refine (text_failsOwn _ hpattern).bind fun _ _ => ?_
  refine (templated_failsOwn _ _ _ _ hminLength).bind fun _ _ => ?_
  refine (templated_failsOwn _ _ _ _ hmaxLength).bind fun _ _ => ?_
  refine (templated_failsOwn _ _ _ _ hminimum).bind fun _ _ => ?_
  refine (templated_failsOwn _ _ _ _ hmaximum).bind fun _ _ => ?_
  refine (text_failsOwn _ hformat).bind fun _ _ => ?_
  refine (anything_failsOwn _ hsample).bind fun _ _ => ?_
  refine (anything_failsOwn _ hfallback).bind fun _ _ => ?_
  refine (templated_failsOwn _ _ _ _ hrepeats).bind fun _ _ => ?_
  refine (templated_failsOwn _ _ _ _ hrequired).bind fun _ _ => ?_
  refine (anything_failsOwn _ hitems).bind fun _ _ => ?_
  exact (values_failsOwn _ hannotations).bind fun _ _ => .ok _

theorem parameters_failsOwn (c : Table Parameter) {p : Table Parameter}
    (h : ∀ t ∈ p.texts Parameter.texts, IsSpellable app.dictionary t) :
    FailsOwn (parameters app c p) :=
  table_failsOwn c h fun _ _ hp a => parameter_failsOwn a hp

theorem body_failsOwn (c : Body) {p : Body}
    (h : (Filling.mk app.dictionary p.texts p.facetNames).CanFill) : FailsOwn (body app c p) := by
  obtain ⟨htexts, hfacets⟩ := h
  simp only [Body.texts, List.forall_mem_append] at htexts
  obtain ⟨⟨⟨⟨⟨⟨⟨⟨hannotations, htype⟩, hitems⟩, hproperties⟩, hschema⟩, hdescription⟩, hsample⟩,
    hheaders⟩, hvalues⟩ := htexts
  simp only [Body.facetNames, List.forall_mem_append, List.forall_mem_flatMap] at hfacets
  obtain ⟨⟨hfacetstype, hfacetsitems⟩, hfacetsproperties⟩ := hfacets
  rw [body]
  refine (shape_failsOwn _ htype hfacetstype).bind fun _ _ => ?_
  refine (shape_failsOwn _ hitems hfacetsitems).bind fun _ _ => ?_
  refine (text_failsOwn _ hschema).bind fun _ _ => ?_
  refine (text_failsOwn _ hdescription).bind fun _ _ => ?_
  refine (anything_failsOwn _ hsample).bind fun _ _ => ?_
  refine (additions_failsOwn _ hproperties fun e he hs =>
    instantiate_failsOwn hs (hfacetsproperties e he)).bind fun _ _ => ?_
  refine (parameters_failsOwn _ hheaders).bind fun _ _ => ?_
  refine (values_failsOwn _ hvalues).bind fun _ _ => ?_
  exact (values_failsOwn _ hannotations).bind fun _ _ => .ok _

theorem flatBody_failsOwn (c : Option Body) {p : Option Body}
    (h : ∀ b ∈ p, (Filling.mk app.dictionary b.texts b.facetNames).CanFill) :
    FailsOwn (flatBody app c p) := by
  cases p with
  | none => exact .ok c
  | some p => exact (body_failsOwn _ (h p rfl)).map some

/-- So it is with bodies that can be filled in. -/
theorem bodies_failsOwn (c : Bodies) {p : Bodies}
    (h : (Filling.mk app.dictionary p.texts p.facetNames).CanFill) :
    FailsOwn (bodies app c p) := by
  obtain ⟨htexts, hfacets⟩ := h
  simp only [Bodies.texts, List.forall_mem_append, List.forall_mem_flatMap] at htexts
  simp only [Bodies.facetNames, List.forall_mem_append, List.forall_mem_flatMap] at hfacets
  rw [bodies]
  refine (flatBody_failsOwn _ fun b hb => ⟨htexts.1.2 b (Option.mem_toList.mpr hb),
    hfacets.1 b (Option.mem_toList.mpr hb)⟩).bind fun _ _ => ?_
  refine (table_failsOwn _ htexts.2 fun e he hb a => body_failsOwn a ⟨hb, hfacets.2 e he⟩).bind
    fun _ _ => ?_
  exact (values_failsOwn _ htexts.1.1).bind fun _ _ => .ok _

theorem response_failsOwn (c : Response) {p : Response}
    (h : (Filling.mk app.dictionary p.texts p.bodies.facetNames).CanFill) :
    FailsOwn (response app c p) := by
  obtain ⟨htexts, hfacets⟩ := h
  simp only [Response.texts, List.forall_mem_append] at htexts
  obtain ⟨⟨⟨⟨hannotations, -⟩, hdescription⟩, hheaders⟩, hbodies⟩ := htexts
  rw [response]
  refine (text_failsOwn _ hdescription).bind fun _ _ => ?_
  refine (parameters_failsOwn _ hheaders).bind fun _ _ => ?_
  refine (bodies_failsOwn _ ⟨hbodies, hfacets⟩).bind fun _ _ => ?_
  exact (values_failsOwn _ hannotations).bind fun _ _ => .ok _

/-- The values of a reference are filled in under their names. -/
theorem assigned_failsOwn {d : Dictionary} {ps : Table Value}
    (h : ∀ t ∈ ps.texts Value.texts, IsSpellable d t) :
    FailsOwn (ps.mapM fun (key, v) => do
      let k ← Application.filled (Template.expand d (.str key))
      let v ← Application.filled (Template.expand d v)
      return (k.display, v)) := by
  refine FailsOwn.mapM fun e he => ?_
  have hentry := Table.forall_mem_texts h he
  refine (Template.expand_failsOwn (.str e.1) (List.forall_mem_singleton.mpr hentry.1)).bind
    fun _ _ => ?_
  exact (Template.expand_failsOwn e.2 hentry.2).bind fun _ _ => .ok _

theorem choice_failsOwn {c : Choice} (h : ∀ t ∈ c.texts, IsSpellable app.dictionary t) :
    FailsOwn (app.choice c) := by
  simp only [Choice.texts, List.forall_mem_append, List.forall_mem_singleton] at h
  obtain ⟨⟨-, hname⟩, hparameters⟩ := h
  rw [Application.choice]
  refine (name_failsOwn hname).bind fun _ _ => ?_
  exact (assigned_failsOwn hparameters).bind fun _ _ => .ok _

theorem security_failsOwn (c : List (Option Choice)) {p : List (Option Choice)}
    (h : ∀ t ∈ p.flatMap fun c => c.toList.flatMap Choice.texts, IsSpellable app.dictionary t) :
    FailsOwn (security app c p) := by
  simp only [List.forall_mem_flatMap] at h
  rw [security]
  refine (FailsOwn.mapM fun o ho => ?_).bind fun _ _ => .ok _
  cases o with
  | none => exact .ok none
  | some c => exact (choice_failsOwn (h _ ho c (List.mem_singleton_self c))).map some

/-- Merging a template into a method fails only with the language's own errors if the texts and the
facets of the template can be filled in. -/
theorem method_failsOwn (c : Method) {p : Method}
    (h : (Filling.mk app.dictionary p.texts p.facetNames).CanFill) : FailsOwn (method app c p) := by
  obtain ⟨htexts, hfacets⟩ := h
  simp only [Method.texts, List.forall_mem_append] at htexts
  obtain ⟨⟨⟨⟨⟨⟨⟨⟨⟨⟨⟨hannotations, -⟩, hdisplay⟩, hdescription⟩, hquery⟩, hheaders⟩, hstring⟩,
    hresponses⟩, hbodies⟩, -⟩, -⟩, hsecured⟩ := htexts
  simp only [Method.facetNames, List.forall_mem_append, List.forall_mem_flatMap] at hfacets
  obtain ⟨⟨hfacetsstring, hfacetsresponses⟩, hfacetsbodies⟩ := hfacets
  rw [method]
  refine (text_failsOwn _ hdisplay).bind fun _ _ => ?_
  refine (text_failsOwn _ hdescription).bind fun _ _ => ?_
  refine (parameters_failsOwn _ hquery).bind fun _ _ => ?_
  refine (parameters_failsOwn _ hheaders).bind fun _ _ => ?_
  refine (shape_failsOwn _ hstring hfacetsstring).bind fun _ _ => ?_
  refine (table_failsOwn _ hresponses fun e he hr a =>
    response_failsOwn a ⟨hr, hfacetsresponses e he⟩).bind fun _ _ => ?_
  refine (bodies_failsOwn _ ⟨hbodies, hfacetsbodies⟩).bind fun _ _ => ?_
  refine (security_failsOwn _ hsecured).bind fun _ _ => ?_
  exact (values_failsOwn _ hannotations).bind fun _ _ => .ok _

/-- Of a resource type what is not in its methods fails with an error of the language. -/
theorem resource_failsOwn (c : Resource) {p : ResourceType}
    (h : ∀ t ∈ p.ownTexts, IsSpellable app.dictionary t) : FailsOwn (resource app c p) := by
  simp only [ResourceType.ownTexts, List.forall_mem_append] at h
  obtain ⟨⟨⟨⟨hannotations, hdisplay⟩, hdescription⟩, huri⟩, hsecured⟩ := h
  rw [resource]
  refine (text_failsOwn _ hdescription).bind fun _ _ => ?_
  refine (text_failsOwn _ hdisplay).bind fun _ _ => ?_
  refine (parameters_failsOwn _ huri).bind fun _ _ => ?_
  refine (security_failsOwn _ hsecured).bind fun _ _ => ?_
  exact (values_failsOwn _ hannotations).bind fun _ _ => .ok _

/-! ## What a merge leaves behind -/

theorem instantiate_facetsApart {s r : Shape} (h : app.instantiate s = .ok r) :
    FacetsApart r.facetNames := by
  obtain ⟨v, -, h⟩ := bind_eq_ok.mp h
  obtain ⟨shape, hshape, h⟩ := bind_eq_ok.mp h
  obtain rfl := pure_eq_ok.mp h
  have hread := Shape.facetsApart_of_ofValue (mapError_eq_ok.mp hshape)
  rw [Application.qualify]
  split
  · exact hread
  · rwa [Shape.facetNames_qualify]

/-- Merging leaves the facets of a shape apart from its fields. -/
theorem shape_facetsApart {c p r : Option Shape} (hc : FacetsApart (Shape.facetNamesOfOption c))
    (h : app.shape c p = .ok r) : FacetsApart (Shape.facetNamesOfOption r) := by
  cases p with
  | none => exact Except.ok.inj h ▸ hc
  | some p =>
    have hnew : ∀ {r}, (app.instantiate p).map some = .ok r →
        FacetsApart (Shape.facetNamesOfOption r) := by
      intro r hr
      obtain ⟨s, hs, rfl⟩ := map_eq_ok.mp hr
      exact instantiate_facetsApart hs
    cases c with
    | none => exact hnew h
    | some c =>
      rw [Application.shape] at h
      split at h
      · exact hnew h
      · exact Except.ok.inj h ▸ hc

section Tables

variable {F : α → Prop} {c p r : Table α}

/-- What holds of a value that is created or merged holds throughout a merged table. -/
theorem forall_of_table {merge : α → α → Except Error α} {create : String → α}
    (hcreate : ∀ key, F (create key))
    (hmerge : ∀ old parent new, F old → merge old parent = .ok new → F new)
    (hc : ∀ e ∈ c, F e.2) (h : table app merge create c p = .ok r) : ∀ e ∈ r, F e.2 := by
  induction p generalizing c with
  | nil => exact Except.ok.inj h ▸ hc
  | cons e p ih =>
    obtain ⟨raw, parent⟩ := e
    obtain ⟨key, -, ⟨-, h⟩ | ⟨place, new, -, hnew, h⟩⟩ := table_cons_eq_ok.mp h
    · exact ih hc h
    · -- an entry that is merged stood in the table already, or it is created empty
      have hold : F ((c.get? place).getD (create place)) := Table.of_getD_get? hc (hcreate place)
      exact ih (Table.forall_mem_set hc (hmerge _ parent new hold hnew)) h

theorem forall_of_additions {make : α → Except Error α}
    (hmake : ∀ parent new, make parent = .ok new → F new) (hc : ∀ e ∈ c, F e.2)
    (h : additions app make c p = .ok r) : ∀ e ∈ r, F e.2 := by
  induction p generalizing c with
  | nil => exact Except.ok.inj h ▸ hc
  | cons e p ih =>
    obtain ⟨raw, parent⟩ := e
    obtain ⟨key, -, ⟨-, h⟩ | ⟨place, new, -, -, hnew, h⟩⟩ := additions_cons_eq_ok.mp h
    · exact ih hc h
    · exact ih (Table.forall_mem_set hc (hmake parent new hnew)) h

end Tables

theorem body_facetsApart {c p r : Body} (hc : FacetsApart c.facetNames)
    (h : body app c p = .ok r) : FacetsApart r.facetNames := by
  have h := body_eq_ok.mp h
  rw [Body.facetNames, facetsApart_append, facetsApart_append, facetsApart_flatMap] at hc ⊢
  exact ⟨⟨shape_facetsApart hc.1.1 h.type, shape_facetsApart hc.1.2 h.items⟩,
    forall_of_additions (F := fun s => FacetsApart s.facetNames)
      (fun _ _ => instantiate_facetsApart) hc.2 h.properties⟩

/-- Merging leaves the facets of bodies apart from fields. -/
theorem bodies_facetsApart {c p r : Bodies} (hc : FacetsApart c.facetNames)
    (h : bodies app c p = .ok r) : FacetsApart r.facetNames := by
  have h := bodies_eq_ok.mp h
  rw [Bodies.facetNames, facetsApart_append, facetsApart_flatMap, facetsApart_flatMap] at hc ⊢
  constructor
  · have hflat := h.flat
    cases hp : p.flat with
    | none =>
      rw [hp] at hflat
      exact Except.ok.inj hflat ▸ hc.1
    | some flat =>
      rw [hp] at hflat
      obtain ⟨merged, hmerged, hr⟩ := map_eq_ok.mp hflat
      rw [← hr, Option.toList_some, List.forall_mem_singleton]
      refine body_facetsApart ?_ hmerged
      cases hown : c.flat with
      | none => exact facetsApart_nil
      | some own => exact hc.1 own (by rw [hown]; exact List.mem_singleton_self own)
  · exact forall_of_table (F := fun b => FacetsApart b.facetNames) (fun _ => facetsApart_nil)
      (fun _ _ _ => body_facetsApart) hc.2 h.byMediaType

/-- Merging leaves the facets in the shapes of a method apart from fields. -/
theorem method_facetsApart {c p r : Method} (hc : FacetsApart c.facetNames)
    (h : method app c p = .ok r) : FacetsApart r.facetNames := by
  have h := method_eq_ok.mp h
  rw [Method.facetNames, facetsApart_append, facetsApart_append, facetsApart_flatMap] at hc ⊢
  refine ⟨⟨shape_facetsApart hc.1.1 h.queryString, ?_⟩, bodies_facetsApart hc.2 h.bodies⟩
  have hcreate : ∀ code, FacetsApart (Response.ofCode code).bodies.facetNames :=
    fun _ => facetsApart_nil
  exact forall_of_table (F := fun r : Response => FacetsApart r.bodies.facetNames) hcreate
    (fun _ _ _ hold hnew => bodies_facetsApart hold (response_eq_ok.mp hnew).bodies)
    hc.1.2 h.responses

end Merge

end Raml
