import Raml.Proofs.Resolution.Provided

/-!
# What is applied to a method

A method takes over from many templates, each with values of its own. The values depend on the
method only through its name, and no merge changes that, so all that is going to be applied can be
listed before the first of it is: `method_eq_ok` says that resolving a method is applying the list
`steps`, one after another.
-/

namespace Raml

open Template (Dictionary)

/-- The same place of declaration, with another template. -/
def Symbol.withTemplate {α β : Type} (s : Symbol α) (t : β) : Symbol β :=
  ⟨t, s.library, s.aliasName⟩

namespace Resolution

/-! ## Listing -/

/-- A template for methods, and the values that it is applied with. -/
structure Step where
  template : Symbol Method
  values : Dictionary

namespace Step

/-- The circumstances in which the template is applied. -/
def application (s : Step) : Application := s.template.application s.values

/-- The method with the template merged into it. -/
def apply (m : Method) (s : Step) : Except Error Method :=
  Merge.method s.application m s.template.template

end Step

/-- The step that a trait makes which is named in the library under the alias `scope`. -/
def traitStep (symbols : Symbols) (r : Resource.Located) (scope : Option String) (m : Method)
    (c : Choice) : Except Error Step := do
  let found ← symbols.trait scope c.name
  return ⟨found.withTemplate found.template.method, Dictionary.ofMethod r m c.parameters⟩

/-- The steps that a resource type makes: the traits that it names, and its templates. -/
def typeSteps (symbols : Symbols) (r : Resource.Located) (a : Applied) (isDeclared : Bool)
    (m : Method) : Except Error (List Step) := do
  let templates := templatesFor a.symbol.template m isDeclared
  let d := Dictionary.ofMethod r m a.parameters
  let named ← (a.symbol.template.traits ++ templates.flatMap Method.traits).mapM fun c =>
    c.instantiate d >>= traitStep symbols r a.symbol.aliasName m
  return named ++ templates.map fun t => ⟨a.symbol.withTemplate t, d⟩

/-- The steps that the resource type makes, if there is one. -/
def addedSteps (symbols : Symbols) (r : Resource.Located) (isDeclared : Bool) (m : Method) :
    Option Applied → Except Error (List Step)
  | none => .ok []
  | some a => typeSteps symbols r a isDeclared m

/-- The steps that resolve a method, in their order. -/
def steps (symbols : Symbols) (r : Resource.Located) (applied : Option Applied) (isDeclared : Bool)
    (m : Method) : Except Error (List Step) := do
  let own ← (r.resource.traits ++ m.traits).mapM (traitStep symbols r none m)
  let added ← addedSteps symbols r isDeclared m applied
  return own ++ added

/-- The templates of a resource type are among the steps. -/
theorem mem_steps_of_mem_templatesFor {symbols : Symbols} {r : Resource.Located} {a : Applied}
    {isDeclared : Bool} {m t : Method} {ss : List Step}
    (h : steps symbols r (some a) isDeclared m = .ok ss)
    (ht : t ∈ templatesFor a.symbol.template m isDeclared) :
    ⟨a.symbol.withTemplate t, Dictionary.ofMethod r m a.parameters⟩ ∈ ss := by
  obtain ⟨own, -, h⟩ := bind_eq_ok.mp h
  obtain ⟨added, hadded, h⟩ := bind_eq_ok.mp h
  obtain ⟨named, -, hadded⟩ := bind_eq_ok.mp hadded
  cases pure_eq_ok.mp h
  cases pure_eq_ok.mp hadded
  exact List.mem_append_right _ (List.mem_append_right _ (List.mem_map_of_mem ht))

section Listed

variable {symbols : Symbols} {r : Resource.Located} {m m' m₀ : Method}

theorem Step.apply_name {s : Step} (h : s.apply m = .ok m') : m'.name = m.name :=
  (Merge.method_eq_ok.mp h).name

/-- Methods of one name have one verb. -/
theorem verb_congr (h : m'.name = m.name) : m'.verb = m.verb := by
  rw [Method.verb, h, Method.verb]

theorem ofMethod_congr (h : m'.name = m.name) :
    Dictionary.ofMethod r m' = Dictionary.ofMethod r m := by
  funext parameters
  rw [Dictionary.ofMethod, verb_congr h, Dictionary.ofMethod]

/-- What no step changes is as it was when all of them have been made. -/
theorem foldlM_apply_kept {β : Type} {f : Method → β}
    (hf : ∀ {s : Step} {m m' : Method}, s.apply m = .ok m' → f m' = f m) {ss : List Step}
    (h : ss.foldlM Step.apply m = .ok m') : f m' = f m := by
  induction ss generalizing m with
  | nil => rw [pure_eq_ok.mp h]
  | cons s ss ih =>
    rw [List.foldlM_cons] at h
    obtain ⟨next, hnext, h⟩ := bind_eq_ok.mp h
    exact (ih h).trans (hf hnext)

/-- The steps leave the name of a method alone. -/
theorem foldlM_apply_name {ss : List Step} (h : ss.foldlM Step.apply m = .ok m') :
    m'.name = m.name :=
  foldlM_apply_kept Step.apply_name h

theorem foldlM_apply_traits {ss : List Step} (h : ss.foldlM Step.apply m = .ok m') :
    m'.traits = m.traits :=
  foldlM_apply_kept (fun h => (Merge.method_eq_ok.mp h).traits) h

/-- A run that finds out what to apply as it goes along applies what can be listed before it. -/
theorem run_eq_ok {α : Type} {listed : α → Except Error Step}
    {step : Method → α → Except Error Method}
    (hstep : ∀ m a, m.name = m₀.name → step m a = listed a >>= Step.apply m) {as : List α}
    (hname : m.name = m₀.name) :
    as.foldlM step m = .ok m' ↔
      ∃ ss, as.mapM listed = .ok ss ∧ ss.foldlM Step.apply m = .ok m' := by
  simp only [mapM_eq_ok]
  induction as generalizing m with
  | nil => simp
  | cons a as ih =>
    -- a step keeps the method's name, so the next one is listed in the same way
    rw [List.foldlM_cons, hstep m a hname, bind_assoc]
    constructor
    · intro h
      obtain ⟨s, hs, h⟩ := bind_eq_ok.mp h
      obtain ⟨next, hnext, h⟩ := bind_eq_ok.mp h
      obtain ⟨ss, hss, h⟩ := (ih ((Step.apply_name hnext).trans hname)).mp h
      refine ⟨s :: ss, .cons hs hss, ?_⟩
      rw [List.foldlM_cons]
      exact bind_eq_ok.mpr ⟨next, hnext, h⟩
    · rintro ⟨_, hall, h⟩
      obtain ⟨s, ss, hs, hss, rfl⟩ := List.forall₂_cons_left_iff.mp hall
      rw [List.foldlM_cons] at h
      obtain ⟨next, hnext, h⟩ := bind_eq_ok.mp h
      have hlast := (ih ((Step.apply_name hnext).trans hname)).mpr ⟨ss, hss, h⟩
      exact bind_eq_ok.mpr ⟨s, hs, bind_eq_ok.mpr ⟨next, hnext, hlast⟩⟩

/-- Applying a trait is taking its step, which can be told before. -/
theorem applyTrait_eq_step {scope : Option String} (c : Choice) (h : m.name = m₀.name) :
    applyTrait symbols r scope m c = traitStep symbols r scope m₀ c >>= Step.apply m := by
  rw [applyTrait, traitStep, bind_assoc, ofMethod_congr h]
  rfl

/-- Applying traits is telling their steps and then taking them. -/
theorem applyTraits_eq_ok {scope : Option String} {cs : List Choice} (h : m.name = m₀.name) :
    applyTraits symbols r scope m cs = .ok m' ↔
      ∃ ss, cs.mapM (traitStep symbols r scope m₀) = .ok ss ∧ ss.foldlM Step.apply m = .ok m' := by
  rw [applyTraits_eq]
  exact run_eq_ok (fun _ c => applyTrait_eq_step c) h

theorem applyTraits_name {scope : Option String} {cs : List Choice}
    (h : applyTraits symbols r scope m cs = .ok m') : m'.name = m.name := by
  obtain ⟨ss, -, hrun⟩ := (applyTraits_eq_ok rfl).mp h
  exact foldlM_apply_name hrun

theorem applyNamed_eq_ok {scope : Option String} {d : Dictionary} {cs : List Choice}
    (h : m.name = m₀.name) :
    applyNamed symbols r scope d m cs = .ok m' ↔
      ∃ ss, cs.mapM (fun c => c.instantiate d >>= traitStep symbols r scope m₀) = .ok ss ∧
        ss.foldlM Step.apply m = .ok m' := by
  rw [applyNamed_eq]
  refine run_eq_ok (fun m c hm => ?_) h
  rw [bind_assoc]
  exact bind_congr fun c' => applyTrait_eq_step c' hm

theorem applyTemplates_eq_run {α : Type} (s : Symbol α) (d : Dictionary) (ts : List Method) :
    applyTemplates (s.application d) m ts =
      (ts.map fun t => (⟨s.withTemplate t, d⟩ : Step)).foldlM Step.apply m := by
  rw [applyTemplates_eq, List.foldlM_map]
  rfl

theorem foldlM_append_eq_ok {ss ts : List Step} : (ss ++ ts).foldlM Step.apply m = .ok m' ↔
    ∃ next, ss.foldlM Step.apply m = .ok next ∧ ts.foldlM Step.apply next = .ok m' := by
  rw [List.foldlM_append, bind_eq_ok]

/-- Applying a resource type is telling its steps and then taking them. -/
theorem applyResourceType_eq_ok {a : Applied} {isDeclared : Bool} (h : m.name = m₀.name) :
    applyResourceType symbols r a.symbol a.parameters isDeclared m = .ok m' ↔
      ∃ ss, typeSteps symbols r a isDeclared m₀ = .ok ss ∧ ss.foldlM Step.apply m = .ok m' := by
  have htemplates := templatesFor_congr a.symbol.template isDeclared (verb_congr h)
  simp only [applyResourceType, typeSteps, htemplates, ofMethod_congr h, bind_eq_ok, pure_eq_ok,
    applyNamed_eq_ok h, applyTemplates_eq_run]
  constructor
  · rintro ⟨next, ⟨ss, hss, hnext⟩, hlast⟩
    exact ⟨_, ⟨ss, hss, rfl⟩, foldlM_append_eq_ok.mpr ⟨next, hnext, hlast⟩⟩
  · rintro ⟨_, ⟨ss, hss, rfl⟩, h⟩
    obtain ⟨next, hnext, hlast⟩ := foldlM_append_eq_ok.mp h
    exact ⟨next, ⟨ss, hss, hnext⟩, hlast⟩

/-- The traits that the resource and the method name are applied before the type adds to them. -/
theorem method_eq_ok_traits {applied : Option Applied} {isDeclared : Bool} :
    method symbols r applied isDeclared m = .ok m' ↔
      ∃ next, applyTraits symbols r none m (r.resource.traits ++ m.traits) = .ok next ∧
        (∃ ss, addedSteps symbols r isDeclared m applied = .ok ss ∧
          ss.foldlM Step.apply next = .ok m') ∧ symbols.checkSecurity m'.securedBy = .ok () := by
  -- the traits leave the method its name, so the steps of the type can be listed before they run
  have hname : ∀ next, applyTraits symbols r none m (r.resource.traits ++ m.traits) = .ok next →
      next.name = m.name := fun _ => applyTraits_name
  cases applied with
  | none =>
    simp only [method, addedSteps, bind_eq_ok, pure_eq_ok, Except.ok.injEq, exists_eq_left',
      List.foldlM_nil]
    constructor
    · rintro ⟨next, h, ⟨⟩, hsecured, rfl⟩
      exact ⟨next, h, rfl, hsecured⟩
    · rintro ⟨_, h, rfl, hsecured⟩
      exact ⟨_, h, (), hsecured, rfl⟩
  | some a =>
    simp only [method, addedSteps, bind_eq_ok, pure_eq_ok]
    refine exists_congr fun next => and_congr_right fun h => ?_
    simp only [applyResourceType_eq_ok (hname next h)]
    constructor
    · rintro ⟨_, hlast, ⟨⟩, hsecured, rfl⟩
      exact ⟨hlast, hsecured⟩
    · rintro ⟨hlast, hsecured⟩
      exact ⟨m', hlast, (), hsecured, rfl⟩

/-- A method is resolved by the steps that are listed for it, and its security schemes exist. -/
theorem method_eq_ok {applied : Option Applied} {isDeclared : Bool} :
    method symbols r applied isDeclared m = .ok m' ↔
      ∃ ss, steps symbols r applied isDeclared m = .ok ss ∧ ss.foldlM Step.apply m = .ok m' ∧
        symbols.checkSecurity m'.securedBy = .ok () := by
  simp only [method_eq_ok_traits, applyTraits_eq_ok (rfl : m.name = m.name), steps, bind_eq_ok,
    pure_eq_ok]
  constructor
  · rintro ⟨next, ⟨own, hown, hnext⟩, ⟨added, hadded, hlast⟩, hsecured⟩
    exact ⟨_, ⟨own, hown, added, hadded, rfl⟩, foldlM_append_eq_ok.mpr ⟨next, hnext, hlast⟩,
      hsecured⟩
  · rintro ⟨_, ⟨own, hown, added, hadded, rfl⟩, hrun, hsecured⟩
    obtain ⟨next, hnext, hlast⟩ := foldlM_append_eq_ok.mp hrun
    exact ⟨next, ⟨own, hown, hnext⟩, ⟨added, hadded, hlast⟩, hsecured⟩

end Listed

end Resolution
end Raml
