import Raml.Document.Api

/-!
# What stands in a document at any depth

Resources lie below resources, and libraries use libraries. `Resource.Within` and `Library.Within`
follow the way down from the entries at the top, so that a property of all of them can be stated.
`parameterTables` does so for parameters.
-/

namespace Raml

namespace Resource

/-- A resource lies among resources or somewhere below them. -/
inductive Within : List (String × Resource) → Resource → Prop where
  | here {rs : List (String × Resource)} {key : String} {r : Resource} :
      (key, r) ∈ rs → Within rs r
  | under {rs : List (String × Resource)} {key : String} {above r : Resource} :
      (key, above) ∈ rs → Within above.nested r → Within rs r

theorem not_within_nil {r : Resource} : ¬Within [] r := by
  intro h
  cases h with
  | here hmem => cases hmem
  | under hmem _ => cases hmem

/-- A resource is within others if it is one of them or within what is nested in one. -/
theorem within_cons {key : String} {r top : Resource} {rs : List (String × Resource)} :
    Within ((key, top) :: rs) r ↔ top = r ∨ Within top.nested r ∨ Within rs r := by
  constructor
  · intro h
    cases h with
    | here hmem =>
      rcases List.mem_cons.mp hmem with heq | hmem
      · cases heq
        exact .inl rfl
      · exact .inr (.inr (.here hmem))
    | under hmem h =>
      rcases List.mem_cons.mp hmem with heq | hmem
      · cases heq
        exact .inr (.inl h)
      · exact .inr (.inr (.under hmem h))
  · rintro (rfl | h | h)
    · exact .here (List.mem_cons_self ..)
    · exact .under (List.mem_cons_self ..) h
    · cases h with
      | here hmem => exact .here (List.mem_cons_of_mem _ hmem)
      | under hmem h => exact .under (List.mem_cons_of_mem _ hmem) h

theorem walk_eq (above : List String) (r : Resource) :
    walk above r = ⟨r, above⟩ :: walkAll (r.uri :: above) r.nested := by
  cases r
  rw [walk]

theorem mem_walkAll {rs : List (String × Resource)} {above : List String} {l : Located} :
    l ∈ walkAll above rs ↔ ∃ e ∈ rs, l ∈ walk above e.2 := by
  induction rs with
  | nil => simp [walkAll]
  | cons e rs ih =>
    obtain ⟨key, r⟩ := e
    rw [walkAll, List.mem_append, ih]
    simp

/-- The walk comes to every resource. -/
theorem Within.exists_mem_walkAll {rs : List (String × Resource)} {r : Resource}
    (h : Within rs r) (above : List String) : ∃ l ∈ walkAll above rs, l.resource = r := by
  induction h generalizing above with
  | here hmem =>
    refine ⟨⟨_, above⟩, mem_walkAll.mpr ⟨_, hmem, ?_⟩, rfl⟩
    rw [walk_eq]
    exact List.mem_cons_self ..
  | under hmem _ ih =>
    obtain ⟨l, hl, hr⟩ := ih _
    refine ⟨l, mem_walkAll.mpr ⟨_, hmem, ?_⟩, hr⟩
    rw [walk_eq]
    exact List.mem_cons_of_mem _ hl

mutual

/-- A walk comes to nothing but a resource and those within it. -/
theorem within_of_mem_walk : ∀ (r : Resource) (above : List String) (l : Located),
    l ∈ walk above r → l.resource = r ∨ Within r.nested l.resource
  | ⟨_, uri, _, _, _, _, _, _, _, nested⟩, above, l, h => by
      rw [walk_eq] at h
      rcases List.mem_cons.mp h with rfl | h
      · exact .inl rfl
      · exact .inr (within_of_mem_walkAll nested (uri :: above) l h)

/-- The walk comes to nothing else than resources of the tree. -/
theorem within_of_mem_walkAll : ∀ (rs : List (String × Resource)) (above : List String)
    (l : Located), l ∈ walkAll above rs → Within rs l.resource
  | [], above, l, h => by
      rw [walkAll] at h
      cases h
  | (key, r) :: rest, above, l, h => by
      rw [walkAll] at h
      rcases List.mem_append.mp h with h | h
      · rcases within_of_mem_walk r above l h with htop | hbelow
        · exact within_cons.mpr (.inl htop.symm)
        · exact within_cons.mpr (.inr (.inl hbelow))
      · exact within_cons.mpr (.inr (.inr (within_of_mem_walkAll rest above l h)))

end

end Resource

namespace Library

/-- A library is used under an alias of its own by libraries, directly or through others. -/
inductive Within : List (String × Library) → String → Library → Prop where
  | here {libs : List (String × Library)} {own : String} {l : Library} :
      (own, l) ∈ libs → Within libs own l
  | through {libs : List (String × Library)} {via own : String} {m l : Library} :
      (via, m) ∈ libs → Within m.libraries own l → Within libs own l

theorem not_within_nil {own : String} {l : Library} : ¬Within [] own l := by
  intro h
  cases h with
  | here hmem => cases hmem
  | through hmem _ => cases hmem

/-- A library is within others if it is one of them or within one, each under its own alias. -/
theorem within_cons {own via : String} {l m : Library} {libs : List (String × Library)} :
    Within ((via, m) :: libs) own l ↔
      (via = own ∧ m = l) ∨ Within m.libraries own l ∨ Within libs own l := by
  constructor
  · intro h
    cases h with
    | here hmem =>
      rcases List.mem_cons.mp hmem with heq | hmem
      · cases heq
        exact .inl ⟨rfl, rfl⟩
      · exact .inr (.inr (.here hmem))
    | through hmem h =>
      rcases List.mem_cons.mp hmem with heq | hmem
      · cases heq
        exact .inr (.inl h)
      · exact .inr (.inr (.through hmem h))
  · rintro (⟨rfl, rfl⟩ | h | h)
    · exact .here (List.mem_cons_self ..)
    · exact .through (List.mem_cons_self ..) h
    · cases h with
      | here hmem => exact .here (List.mem_cons_of_mem _ hmem)
      | through hmem h => exact .through (List.mem_cons_of_mem _ hmem) h

end Library

/-! ## Parameters

Parameters stand in many places: in the query and the headers of a method, in the headers of its
responses and of every body, in the path of a resource, in what a security scheme adds to messages
and in the base URI. `parameterTables` lists the tables of all these places, entity by entity, so
that a property of all parameters of a document is one of the members of its tables. -/

/-- The tables of parameters in bodies. -/
def Bodies.parameterTables (b : Bodies) : List (Table Parameter) := b.all.map Body.headers

/-- The tables of parameters in a response. -/
def Response.parameterTables (r : Response) : List (Table Parameter) :=
  r.headers :: r.bodies.parameterTables

/-- The tables of parameters in a method. -/
def Method.parameterTables (m : Method) : List (Table Parameter) :=
  m.queryParameters :: m.headers ::
    (m.bodies.parameterTables ++ m.responses.flatMap fun e => e.2.parameterTables)

/-- The tables of parameters in a resource, apart from the resources below it. -/
def Resource.parameterTables (r : Resource) : List (Table Parameter) :=
  r.uriParameters :: r.methods.flatMap fun e => e.2.parameterTables

/-- The tables of parameters that a security scheme adds to messages. -/
def DescribedBy.parameterTables (d : DescribedBy) : List (Table Parameter) :=
  d.headers :: d.queryParameters :: d.responses.flatMap fun e => e.2.parameterTables

/-- The tables of parameters in a template for resources. -/
def ResourceType.parameterTables (t : ResourceType) : List (Table Parameter) :=
  t.uriParameters :: ((t.methods.flatMap fun e => e.2.parameterTables) ++
    t.optionalMethods.flatMap fun e => e.2.parameterTables)

/-- The tables of parameters in declarations. -/
def Declarations.parameterTables (d : Declarations) : List (Table Parameter) :=
  (d.traits.flatMap fun e => e.2.method.parameterTables) ++
    (d.resourceTypes.flatMap fun e => e.2.parameterTables) ++
      d.securitySchemes.flatMap fun e => e.2.describedBy.parameterTables

namespace Api

/-- The tables of parameters of a document that are in no resource and in no template. -/
def outerParameterTables (a : Api) : List (Table Parameter) :=
  a.baseUriParameters ::
    a.declared.securitySchemes.flatMap fun e => e.2.describedBy.parameterTables

/-- The tables of parameters of a document that are in no template. -/
def parameterTables (a : Api) : List (Table Parameter) :=
  a.outerParameterTables ++ a.located.flatMap fun l => l.resource.parameterTables

end Api

end Raml
