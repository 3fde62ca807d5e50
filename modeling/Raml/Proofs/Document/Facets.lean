import Raml.Load.Library
import Raml.Proofs.Document.RewrittenTree
import Raml.Proofs.Document.Tree
import Raml.Proofs.Shape.Facets

/-!
# Facets of the shapes in a document

Every shape of a document was read, so its facets stand apart from the fields beside them. This goes
from the shapes to the entities that hold them, reader by reader, and through the tree of resources
to all methods of a document (`facetsApart_of_build`).
-/

namespace Raml

open Shape (FacetsApart)

/-! ## Entities -/

/-- The names of the facets in the shapes of a body. -/
def Body.facetNames (b : Body) : List String :=
  Shape.facetNamesOfOption b.type ++ Shape.facetNamesOfOption b.items ++
    b.properties.flatMap fun e => e.2.facetNames

/-- The names of the facets in the shapes of bodies. -/
def Bodies.facetNames (b : Bodies) : List String :=
  b.flat.toList.flatMap Body.facetNames ++ b.byMediaType.flatMap fun e => e.2.facetNames

/-- The names of the facets in the shapes of a method. -/
def Method.facetNames (m : Method) : List String :=
  Shape.facetNamesOfOption m.queryString ++
    (m.responses.flatMap fun e => e.2.bodies.facetNames) ++ m.bodies.facetNames

/-! ## Readers -/

namespace Reader

variable {α : Type} {P : α → Prop} {read : Reader α}

/-- Whether `P` holds of whatever is read. -/
def Gives (P : α → Prop) (read : Reader α) : Prop := ∀ ⦃v a⦄, read v = .good a → P a

/-- What a reader gives of each value holds throughout a table of them. -/
theorem gives_table (h : Gives P read) : Gives (fun t => ∀ e ∈ t, P e.2) (table read) := by
  intro v t ht e he
  obtain ⟨w, -, hw⟩ := mem_of_table ht e he
  exact h hw

theorem gives_adopted {name : α → String} {rename : String → α → α}
    (hrename : ∀ key a, P a → P (rename key a)) (h : Gives P read) :
    Gives (fun t => ∀ e ∈ t, P e.2) fun v => (table read v).map (adoptNames name rename) := by
  intro v t ht
  obtain ⟨t', ht', rfl⟩ := Checked.map_eq_good.mp ht
  rw [adoptNames, List.forall_mem_map]
  intro e he
  dsimp only
  split
  · exact hrename e.1 e.2 (gives_table h ht' e he)
  · exact gives_table h ht' e he

theorem gives_optional (h : Gives P read) : Gives (fun o => ∀ a ∈ o, P a) (optional read) := by
  intro v o ho
  rw [optional.eq_def] at ho
  split at ho
  · cases ho
    simp
  · obtain ⟨a, ha, rfl⟩ := Checked.map_eq_good.mp ho
    rintro b ⟨⟩
    exact h ha

/-- No facet of a shape that was read stands in the place of a field. -/
theorem gives_shape : Gives (fun s => FacetsApart s.facetNames) shape := by
  intro v s h
  rw [shape] at h
  split at h
  · cases h
    exact Shape.facetsApart_of_ofValue ‹_›
  · cases h

theorem gives_shape? : Gives (fun o => FacetsApart (Shape.facetNamesOfOption o)) shape? := by
  intro v o h
  rw [shape?] at h
  split at h
  · cases h
    rename_i ho
    cases o with
    | none => exact List.forall_mem_nil _
    | some s => exact Shape.facetsApart_of_ofValue (Shape.of_optionalOf ho)
  · cases h

end Reader

namespace Fields

variable {α : Type} {P : α → Prop} {read : Reader α} {f : Fields} {names : List String} {a : α}

theorem of_collection {empty : α} (hread : Reader.Gives P read) (hempty : P empty)
    (h : f.collection names empty read = .good a) : P a := by
  rw [collection] at h
  split at h
  · exact hread (Checked.under_eq_good.mp h)
  · cases h
    exact hempty

theorem of_withDefault {fallback : α} (hread : Reader.Gives P read) (hfallback : P fallback)
    (h : f.withDefault names fallback read = .good a) : P a := by
  rw [withDefault] at h
  split at h
  · exact hread (Checked.under_eq_good.mp h)
  · cases h
    exact hfallback

theorem facetsApart_of_shape? {o : Option Shape} (h : f.shape? names = .good o) :
    FacetsApart (Shape.facetNamesOfOption o) := by
  have hnone : FacetsApart (Shape.facetNamesOfOption none) := List.forall_mem_nil _
  exact (of_withDefault Reader.gives_shape? hnone h :)

end Fields

/-! ## Entities that were read -/

theorem facetsApart_append {xs ys : List String} :
    FacetsApart (xs ++ ys) ↔ FacetsApart xs ∧ FacetsApart ys := List.forall_mem_append

theorem facetsApart_flatMap {α : Type} {f : α → List String} {as : List α} :
    FacetsApart (as.flatMap f) ↔ ∀ a ∈ as, FacetsApart (f a) := by
  simp only [FacetsApart, List.forall_mem_flatMap]

theorem facetsApart_nil : FacetsApart [] := List.forall_mem_nil _

theorem Body.gives_facetsApart : Reader.Gives (fun b => FacetsApart b.facetNames) read := by
  intro v b h
  obtain ⟨f, -, h⟩ := EntityForm.read_eq_good.mp h
  obtain ⟨-, htype, hitems, hproperties, -⟩ := ofFields_eq_good.mp h
  rw [facetNames, facetsApart_append, facetsApart_append, facetsApart_flatMap]
  exact ⟨⟨Fields.facetsApart_of_shape? htype, Fields.facetsApart_of_shape? hitems⟩,
    (Fields.of_collection (Reader.gives_table Reader.gives_shape) (List.forall_mem_nil _)
      hproperties :)⟩

theorem Bodies.facetsApart_empty : FacetsApart Bodies.empty.facetNames := facetsApart_nil

theorem Bodies.gives_facetsApart : Reader.Gives (fun b => FacetsApart b.facetNames) read := by
  intro v b h
  obtain ⟨f, -, h⟩ := EntityForm.read_eq_good.mp h
  obtain ⟨-, hflat, hmedia⟩ := ofFields_eq_good.mp h
  rw [facetNames, facetsApart_append, facetsApart_flatMap, facetsApart_flatMap]
  refine ⟨fun body hbody => ?_, ?_⟩
  · have hnone : ∀ b ∈ (none : Option Body), FacetsApart b.facetNames := fun _ => nofun
    exact Fields.of_withDefault (Reader.gives_optional Body.gives_facetsApart) hnone hflat body
      (Option.mem_toList.mp hbody)
  · exact (Fields.of_collection (Reader.gives_table Body.gives_facetsApart) (List.forall_mem_nil _)
      hmedia :)

theorem Response.gives_facetsApart :
    Reader.Gives (fun t => ∀ e ∈ t, FacetsApart e.2.bodies.facetNames) readTable := by
  refine Reader.gives_adopted (P := fun r : Response => FacetsApart r.bodies.facetNames)
    (fun _ _ => id) fun v r h => ?_
  obtain ⟨f, -, h⟩ := EntityForm.read_eq_good.mp h
  obtain ⟨-, -, -, -, hbodies⟩ := ofFields_eq_good.mp h
  exact (Fields.of_collection Bodies.gives_facetsApart Bodies.facetsApart_empty hbodies :)

theorem Method.gives_facetsApart :
    Reader.Gives (fun t => ∀ e ∈ t, FacetsApart e.2.facetNames) readTable := by
  refine Reader.gives_adopted (P := fun m : Method => FacetsApart m.facetNames)
    (fun _ _ => id) fun v m h => ?_
  obtain ⟨f, -, h⟩ := EntityForm.read_eq_good.mp h
  obtain ⟨-, -, -, -, -, -, hstring, hresponses, hbodies, -⟩ := ofFields_eq_good.mp h
  rw [facetNames, facetsApart_append, facetsApart_append, facetsApart_flatMap]
  exact ⟨⟨Fields.facetsApart_of_shape? hstring,
      (Fields.of_collection Response.gives_facetsApart (List.forall_mem_nil _) hresponses :)⟩,
    (Fields.of_collection Bodies.gives_facetsApart Bodies.facetsApart_empty hbodies :)⟩

/-! ## Resources -/

namespace Resource

/-- Whether the facets in the methods of a resource and of all below it are apart from fields. -/
structure MethodsApart (r : Resource) : Prop where
  own : ∀ e ∈ r.methods, FacetsApart e.2.facetNames
  below : ∀ above, ∀ l ∈ walkAll above r.nested, ∀ e ∈ l.resource.methods,
    FacetsApart e.2.facetNames

/-- What holds of a resource holds wherever a walk through it comes. -/
theorem MethodsApart.walk {r : Resource} (h : r.MethodsApart) (above : List String) :
    ∀ l ∈ walk above r, ∀ e ∈ l.resource.methods, FacetsApart e.2.facetNames := by
  rw [walk_eq, List.forall_mem_cons]
  exact ⟨h.own, h.below _⟩

theorem walkAll_apart {t : Table Resource} (h : ∀ e ∈ t, e.2.MethodsApart) (above : List String) :
    ∀ l ∈ walkAll above t, ∀ e ∈ l.resource.methods, FacetsApart e.2.facetNames := by
  induction t with
  | nil => exact List.forall_mem_nil _
  | cons e t ih =>
    obtain ⟨key, r⟩ := e
    rw [List.forall_mem_cons] at h
    rw [walkAll, List.forall_mem_append]
    exact ⟨h.1.walk above, ih h.2⟩

/-- In a resource that was read, the facets of every method are apart from fields. -/
theorem methodsApart_of_ofEntries {nested : List (Value × Checked Resource)}
    {es : List (Value × Value)} {r : Resource}
    (hnested : ∀ b ∈ nested, ∀ r, b.2 = .good r → r.MethodsApart)
    (h : (form nested).ofEntries es = .good r) : r.MethodsApart := by
  obtain ⟨f, -, h⟩ := EntityForm.ofEntries_eq_good.mp h
  obtain ⟨-, -, -, -, hmethods, -, -, -, -, hbelow⟩ := ofFields_eq_good.mp h
  refine ⟨Fields.of_collection Method.gives_facetsApart (List.forall_mem_nil _) hmethods,
    walkAll_apart ?_⟩
  obtain ⟨entries, hentries, heq⟩ := Checked.map_eq_good.mp (Checked.under_eq_good.mp hbelow)
  rw [← heq, adoptNames, List.forall_mem_map]
  refine Table.forall_mem_ofEntries fun e he => ?_
  obtain ⟨b, hb, hread⟩ := Reader.mem_of_entries hentries e he
  have hapart := hnested b hb e.2 hread
  dsimp only
  split
  · exact ⟨hapart.own, hapart.below⟩
  · exact hapart

/-- In a resource that is read the facets of all methods are apart from fields. -/
theorem methodsApart_of_read {v : Value} : ∀ r, read v = .good r → r.MethodsApart := by
  have hnull : ∀ r, read .null = .good r → r.MethodsApart := by
    intro r h
    rw [read] at h
    exact methodsApart_of_ofEntries (List.forall_mem_nil _) h
  induction v using Value.membersInduction with
  | step v hentries hmembers =>
    intro r h
    cases v with
    | map es =>
      -- what is listed and what branches off are read from smaller values
      have hall : ∀ b ∈ listed es ++ branches es,
          True ∧ ∀ r, b.2 = .good r → r.MethodsApart := by
        rw [List.forall_mem_append, gathers_read.forall_mem_read, forall_mem_branches]
        refine ⟨fun c hc => ⟨trivial, hmembers _ c hc⟩, fun e he _ => ⟨trivial, ?_⟩⟩
        split
        · exact hentries e he
        · exact hnull
      rw [read] at h
      refine methodsApart_of_ofEntries (fun b hb => ?_) h
      exact (Value.forall_mem_mapOf (K := fun _ => True)
        (V := fun c => ∀ r, c = .good r → r.MethodsApart) hall b hb).2
    | null => exact hnull r h
    | _ => simp [read, notResource, Checked.fail] at h

end Resource

/-! ## Documents -/

namespace Api

variable {source version : String} {entries : List (Value × Value)} {a : Api}

/-- A document is what its fields hold, with the location and the version that go with them. -/
theorem fields_of_build (h : build source version entries = .ok a) :
    ∃ libraries f read, ofFields libraries f = .good read ∧
      a = { read with location := source, ramlVersion := version } := by
  rw [build] at h
  split at h
  · rename_i read hread
    obtain ⟨f, -, hfields⟩ := EntityForm.ofEntries_eq_good.mp hread
    exact ⟨_, f, read, hfields, (Except.ok.inj h).symm⟩
  · cases h

/-- The aliases in a document are distinct. -/
theorem distinct_uses_of_build (h : build source version entries = .ok a) :
    a.declared.uses.Distinct := by
  obtain ⟨libraries, f, read, hfields, rfl⟩ := fields_of_build h
  obtain ⟨-, hdeclared, -⟩ := ofFields_eq_good.mp hfields
  exact Declarations.distinct_uses hdeclared

/-- In every method of a document the facets of shapes stand apart from the fields beside them. -/
theorem facetsApart_of_build (h : build source version entries = .ok a) :
    ∀ l ∈ a.located, ∀ e ∈ l.resource.methods, FacetsApart e.2.facetNames := by
  obtain ⟨libraries, f, read, hfields, rfl⟩ := fields_of_build h
  obtain ⟨-, -, -, -, -, -, -, -, -, -, -, -, -, hresources, -⟩ := ofFields_eq_good.mp hfields
  have hread : Reader.Gives (fun t => ∀ e ∈ t, e.2.MethodsApart) readResources :=
    Reader.gives_adopted (P := Resource.MethodsApart) (fun _ _ h => ⟨h.own, h.below⟩)
      fun _ _ h => Resource.methodsApart_of_read _ h
  have hapart : ∀ e ∈ read.resources, e.2.MethodsApart :=
    (Fields.of_collection hread (List.forall_mem_nil _) hresources :)
  exact Resource.walkAll_apart hapart []

end Api

end Raml
