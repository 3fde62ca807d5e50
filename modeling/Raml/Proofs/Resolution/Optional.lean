import Raml.Proofs.Document.Tree
import Raml.Proofs.Resolution.Normal
import Raml.Proofs.Resolution.Steps

/-!
# Parameters that are marked as optional

A parameter under a key with a question mark gets the name before the mark, and is not required
unless it says so. That is done for the parameters of resources and of all that is in them, once
templates are applied and flat bodies folded: `parameterTables_of_normalize` follows it through a
resource, and nothing is left out there.

The parameters of the base URI and those that security schemes add to messages are in no resource,
and they stay as they were read. So all parameters of a resolved document are normal only if those
are from the start (`parameters_normal_iff`).
-/

namespace Raml

/-! ## Folding -/

/-- A response with its flat body folded. -/
def Response.fold (r : Response) : Except Error Response := do
  return { r with bodies := ← r.bodies.fold }

/-- A method with its flat body folded, and those of its responses. -/
def Method.fold (m : Method) : Except Error Method := do
  let bodies ← m.bodies.fold
  let responses ← Table.mapValuesM Response.fold m.responses
  return { m with bodies, responses }

/-- A resource with all flat bodies of its methods folded. -/
def Resource.fold (r : Resource) : Except Error Resource := do
  let methods ← Table.mapValuesM Method.fold r.methods
  return { r with methods }

/-! ## Normalizing -/

section Tables

variable {ε α β γ : Type}

/-- Of two steps of which the second one follows the first, so does the one over a table. -/
theorem Table.mapValuesM_related {f : α → Except ε β} {g : α → Except ε γ} {R : γ → β → Prop}
    (h : ∀ a b, f a = .ok b → ∃ c, g a = .ok c ∧ R c b) {t : Table α} {t' : Table β}
    (ht : mapValuesM f t = .ok t') :
    ∃ t'', mapValuesM g t = .ok t'' ∧ Matches (fun _ => R) t'' t' := by
  induction t generalizing t' with
  | nil =>
    cases ht
    exact ⟨[], rfl, .nil⟩
  | cons e t ih =>
    obtain ⟨n, a⟩ := e
    rw [mapValuesM] at ht
    obtain ⟨b, hb, ht⟩ := bind_eq_ok.mp ht
    obtain ⟨rest, hrest, ht⟩ := bind_eq_ok.mp ht
    obtain ⟨c, hc, hR⟩ := h a b hb
    obtain ⟨t'', ht'', hall⟩ := ih hrest
    rw [← pure_eq_ok.mp ht]
    refine ⟨(n, c) :: t'', ?_, .cons ⟨rfl, hR⟩ hall⟩
    rw [mapValuesM, hc, ht'']
    rfl

theorem Table.flatMap_of_matches {f : α → List γ} {g : β → List γ} {step : γ → γ} {t : Table α}
    {t' : Table β} (h : Matches (fun _ a b => g b = (f a).map step) t t') :
    t'.flatMap (fun e => g e.2) = (t.flatMap fun e => f e.2).map step := by
  induction h with
  | nil => rfl
  | cons he _ ih => rw [List.flatMap_cons, List.flatMap_cons, he.2, ih, List.map_append]

end Tables

open Parameter (normalizeTable)

theorem Bodies.parameterTables_of_normalize {b b' : Bodies} (h : b.normalize = .ok b') :
    ∃ f, b.fold = .ok f ∧ b'.parameterTables = f.parameterTables.map normalizeTable := by
  obtain ⟨f, hf, h⟩ := bind_eq_ok.mp h
  cases pure_eq_ok.mp h
  refine ⟨f, hf, ?_⟩
  cases hflat : f.flat <;> simp [parameterTables, all, hflat, Table.mapValues, Body.normalize]

theorem Response.parameterTables_of_normalize {r r' : Response} (h : r.normalize = .ok r') :
    ∃ f, r.fold = .ok f ∧ r'.parameterTables = f.parameterTables.map normalizeTable := by
  obtain ⟨bodies, hbodies, h⟩ := bind_eq_ok.mp h
  cases pure_eq_ok.mp h
  obtain ⟨folded, hfolded, htables⟩ := Bodies.parameterTables_of_normalize hbodies
  refine ⟨{ r with bodies := folded }, bind_eq_ok.mpr ⟨folded, hfolded, rfl⟩, ?_⟩
  rw [parameterTables, parameterTables, List.map_cons, htables]

/-- Normalizing a method folds its bodies and then normalizes its parameters. -/
theorem Method.parameterTables_of_normalize {m m' : Method} (h : m.normalize = .ok m') :
    ∃ f, m.fold = .ok f ∧ m'.parameterTables = f.parameterTables.map normalizeTable := by
  obtain ⟨bodies, hbodies, h⟩ := bind_eq_ok.mp h
  obtain ⟨responses, hresponses, h⟩ := bind_eq_ok.mp h
  cases pure_eq_ok.mp h
  obtain ⟨folded, hfolded, htables⟩ := Bodies.parameterTables_of_normalize hbodies
  obtain ⟨answers, hanswers, hmatches⟩ :=
    Table.mapValuesM_related (fun _ _ => Response.parameterTables_of_normalize) hresponses
  refine ⟨{ m with bodies := folded, responses := answers },
    bind_eq_ok.mpr ⟨folded, hfolded, bind_eq_ok.mpr ⟨answers, hanswers, rfl⟩⟩, ?_⟩
  rw [parameterTables, parameterTables, List.map_cons, List.map_cons, List.map_append, htables,
    Table.flatMap_of_matches hmatches]

/-- Every table of parameters of a resource is normalized, once flat bodies are folded. -/
theorem Resource.parameterTables_of_normalize {r r' : Resource} (h : r.normalize = .ok r') :
    ∃ f, r.fold = .ok f ∧ r'.parameterTables = f.parameterTables.map normalizeTable := by
  obtain ⟨methods, hmethods, h⟩ := bind_eq_ok.mp h
  cases pure_eq_ok.mp h
  obtain ⟨folded, hfolded, hmatches⟩ :=
    Table.mapValuesM_related (fun _ _ => Method.parameterTables_of_normalize) hmethods
  refine ⟨{ r with methods := folded }, bind_eq_ok.mpr ⟨folded, hfolded, rfl⟩, ?_⟩
  rw [parameterTables, parameterTables, List.map_cons, Table.flatMap_of_matches hmatches]

/-- A parameter whose key marks it is not required if it did not say whether it is. -/
theorem Parameter.isRequired_normalize {key : String} {p : Parameter}
    (hkey : Text.endsWith "?" key = true) (hp : p.required = none) :
    (p.normalize key).isRequired = false := by
  rw [normalize, if_pos hkey, hp]
  rfl

/-! ## Resolving -/

namespace Resolution

/-- Whether the parameters of a resolved resource are those of the resource with all templates
applied and all flat bodies folded, in normal form: a marked one is required only if it says so. -/
def ParametersSettled (symbols : Symbols) (l l' : Resource.Located) : Prop :=
  ∃ applied own ms folded, Arranged symbols (alone l) applied own ms ∧
    Resource.fold { own with methods := ms } = .ok folded ∧
    l'.resource.parameterTables = folded.parameterTables.map normalizeTable ∧
    ∀ t ∈ folded.parameterTables, ∀ e ∈ t, Text.endsWith "?" e.1 = true → e.2.required = none →
      (e.2.normalize e.1).isRequired = false

theorem parametersSettled_of_resolvedTo {symbols : Symbols} {l l' : Resource.Located}
    (h : ResolvedTo symbols l l') : ParametersSettled symbols l l' := by
  obtain ⟨applied, own, ms, harranged, -, hnormal⟩ := resource_eq_ok.mp h.2
  obtain ⟨folded, hfolded, htables⟩ := Resource.parameterTables_of_normalize hnormal
  exact ⟨applied, own, ms, folded, harranged, hfolded, htables,
    fun _ _ _ _ => Parameter.isRequired_normalize⟩

/-- Resolution does not touch the parameters of the base uri nor those of security schemes. -/
theorem outerParameterTables_of_resolve {a a' : Api} (h : a.resolve = .ok a') :
    a'.outerParameterTables = a.outerParameterTables := by
  obtain ⟨_, -, h⟩ := bind_eq_ok.mp h
  obtain ⟨resources, -, h⟩ := bind_eq_ok.mp h
  cases pure_eq_ok.mp h
  rfl

/-- **Whether all marked parameters of a resolved document are normal.** Those of resources are, at
any depth, with what is in their methods, bodies and responses. Those of the base URI and of the
descriptions of security schemes are left as they were read. So all are normal if and only if the
latter were from the start. -/
theorem parameters_normal_iff {a a' : Api} (h : a.resolve = .ok a') :
    List.Forall₂ (ParametersSettled (Symbols.ofApi a)) a.located a'.located ∧
    a'.outerParameterTables = a.outerParameterTables ∧
    ((∀ t ∈ a'.parameterTables, Parameter.TableIsNormal t) ↔
      ∀ t ∈ a.outerParameterTables, Parameter.TableIsNormal t) := by
  have hsettled : List.Forall₂ (ParametersSettled (Symbols.ofApi a)) a.located a'.located :=
    (resolvedTo_of_resolve h).imp fun _ _ => parametersSettled_of_resolvedTo
  have houter := outerParameterTables_of_resolve h
  refine ⟨hsettled, houter, ?_⟩
  have hresources : ∀ t ∈ a'.located.flatMap fun l => l.resource.parameterTables,
      Parameter.TableIsNormal t := by
    rw [List.forall_mem_flatMap]
    intro l' hl' t ht
    obtain ⟨l, -, hl⟩ := exists_of_mem_right hsettled hl'
    obtain ⟨_, _, _, folded, -, -, htables, -⟩ := hl
    rw [htables] at ht
    -- whatever the table was, it was normalized last
    obtain ⟨t₀, -, rfl⟩ := List.mem_map.mp ht
    exact Parameter.normalizeTable_isNormal t₀
  rw [Api.parameterTables, List.forall_mem_append, houter, and_iff_left hresources]

/-- A document with a marked parameter in the headers of a response, and a flat body beside it. -/
def shop : Api :=
  let limit : Parameter := { Parameter.named "X-Limit?" with required := some (.exact true) }
  let listed : Response :=
    { Response.ofCode "200" with
      headers := [("X-Limit?", limit)]
      bodies := ⟨[], some { Body.empty with headers := [("X-Page?", Parameter.named "X-Page?")] },
        [("text/plain", { Body.empty with headers := [("X-Page?", Parameter.named "X-Page?")] })]⟩ }
  { (default : Api) with
    resources := [("/books", { (default : Resource) with
      uri := "/books"
      methods := [("get", { Method.named "GET" with responses := [("200", listed)] })] })] }

theorem shop_parameters_normal : ∃ a', shop.resolve = .ok a' ∧
    ∀ t ∈ a'.parameterTables, Parameter.TableIsNormal t := by
  obtain ⟨a', ha'⟩ : ∃ a', shop.resolve = .ok a' := exists_of_isOk (by decide +kernel)
  have hnone : ∀ t ∈ shop.outerParameterTables, Parameter.TableIsNormal t :=
    List.forall_mem_singleton.mpr (List.forall_mem_nil _)
  exact ⟨a', ha', (parameters_normal_iff ha').2.2.mpr hnone⟩

/-- The entries of a document with a marked parameter in its base URI. -/
def regional : List (Value × Value) :=
  [(.str "baseUri", .str "https://\x7bregion\x7d.example.com"),
    (.str "baseUriParameters", .map [(.str "region?", .str "string")])]

/-- The parameter keeps the mark in its name, and counts as required. -/
theorem region_not_normal : ∃ a a', Api.build "<string>" "RAML 1.0" regional = .ok a ∧
    a.resolve = .ok a' ∧ ∃ t ∈ a'.parameterTables, ∃ e ∈ t,
      Text.endsWith "?" e.1 = true ∧ e.2.name = e.1 ∧ e.2.isRequired = true := by
  obtain ⟨a, ha, hread⟩ : ∃ a, Api.build "<string>" "RAML 1.0" regional = .ok a ∧
      (a.baseUriParameters.map fun e => (e.1, e.2.name, e.2.isRequired)) =
        [("region?", "region?", true)] :=
    toOption_map_eq_some.mp (by decide +kernel)
  have hresolved : (Api.build "<string>" "RAML 1.0" regional >>= Api.resolve).isOk = true := by
    decide +kernel
  rw [bind_of_eq_ok ha] at hresolved
  obtain ⟨a', ha'⟩ := exists_of_isOk hresolved
  obtain ⟨e, he, hparts⟩ := List.exists_of_mem_map (hread ▸ List.mem_singleton_self _)
  obtain ⟨hkey, hname, hrequired⟩ := by simpa using hparts
  refine ⟨a, a', ha, ha', a.baseUriParameters, ?_, e, he, ?_, ?_, hrequired⟩
  · rw [Api.parameterTables, outerParameterTables_of_resolve ha']
    exact List.mem_append_left _ (List.mem_cons_self ..)
  · rw [hkey]
    decide
  · rw [hname, hkey]

end Resolution
end Raml
