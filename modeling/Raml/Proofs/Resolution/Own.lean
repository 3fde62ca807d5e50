import Raml.Proofs.Document.ToldTree
import Raml.Proofs.Load.Library
import Raml.Proofs.Merge.Own
import Raml.Proofs.Resolution.Traits

/-!
# The errors of a resolution

Resolving a document fills in templates, and what all of them are and with which values can be told
before it begins (`Api.fillings`): the steps of `Resolution.steps` are listed ahead, and so are the
names with values that a resource type gives to its traits. If every filling can be filled in, then
what resolution can fail with is an error of the language: a name that stands for nothing, an
inflector that nobody knows, or a value that its field does not take.

The facets in the methods of a document are apart from fields when it is read, and merging leaves
them so. That is what the normal form needs, which merges bodies once more, without values.

`Access.resolves_or_failsOwn` takes this to a whole document with the libraries that it uses, if the
integers in it have texts. The conditions are needed: a path without letters gives a template an
empty word, and of a title that is an integer without a text nothing is told (`pathless_emptyWord`).
-/

namespace Raml

open Shape (FacetsApart)
open Template (Dictionary)

/-! ## Normal form -/

theorem Bodies.normalize_failsOwn {b : Bodies} (h : FacetsApart b.facetNames) :
    FailsOwn b.normalize := by
  rw [facetNames, facetsApart_append, facetsApart_flatMap] at h
  rw [normalize]
  refine FailsOwn.bind ?_ fun _ _ => .ok _
  rw [fold.eq_def]
  split
  · rename_i flat m ms hflat hmedia
    -- the flat body is merged without values, and only its facets could stand in the way
    have hbody : FacetsApart flat.facetNames :=
      h.1 flat (by rw [hflat]; exact List.mem_singleton_self flat)
    refine (FailsOwn.mapValuesM fun e _ => ?_).bind fun _ _ => .ok _
    exact Merge.body_failsOwn e.2 (Filling.canFill_empty hbody)
  · exact .ok b

/-- A method is brought into normal form if the facets in its shapes are apart from fields. -/
theorem Method.normalize_failsOwn {m : Method} (h : FacetsApart m.facetNames) :
    FailsOwn m.normalize := by
  rw [facetNames, facetsApart_append, facetsApart_append, facetsApart_flatMap] at h
  rw [normalize]
  refine (Bodies.normalize_failsOwn h.2).bind fun _ _ => ?_
  refine (FailsOwn.mapValuesM fun e he => ?_).bind fun _ _ => .ok _
  exact (Bodies.normalize_failsOwn (h.1.2 e he)).bind fun _ _ => .ok _

namespace Resolution

/-! ## What is filled in -/

/-- What a step fills in. -/
def Step.filling (s : Step) : Filling :=
  ⟨s.values, s.template.template.texts, s.template.template.facetNames⟩

/-- What is filled in for references, given the step that each of them makes if it is found. -/
def foundFillings (find : Choice → Except Error Step) (cs : List Choice) : List Filling :=
  cs.filterMap fun c => (find c).toOption.map Step.filling

/-- What a resource type fills in for a method: the values that it gives to traits, the traits and
its templates. -/
def typeFillings (symbols : Symbols) (l : Resource.Located) (a : Applied) (isDeclared : Bool)
    (m : Method) : List Filling :=
  let templates := templatesFor a.symbol.template m isDeclared
  let d := Dictionary.ofMethod l m a.parameters
  let named := a.symbol.template.traits ++ templates.flatMap Method.traits
  (named.map fun c => ⟨d, c.parameters.texts Value.texts, []⟩) ++
    foundFillings (fun c => c.instantiate d >>= traitStep symbols l a.symbol.aliasName m) named ++
    templates.map fun t => Step.filling ⟨a.symbol.withTemplate t, d⟩

/-- What is filled in for a method. -/
def methodFillings (symbols : Symbols) (l : Resource.Located) (applied : Option Applied)
    (isDeclared : Bool) (m : Method) : List Filling :=
  foundFillings (traitStep symbols l none m) (l.resource.traits ++ m.traits) ++
    applied.toList.flatMap fun a => typeFillings symbols l a isDeclared m

/-- What is filled in for a resource that has the resource type `applied`. -/
def resourceFillings (symbols : Symbols) (l : Resource.Located) (applied : Option Applied) :
    List Filling :=
  (applied.toList.map fun a =>
    ⟨Dictionary.ofResource l a.parameters, a.symbol.template.ownTexts, []⟩) ++
  (methodsOf l.resource applied).flatMap fun e =>
    methodFillings symbols l applied (l.resource.methods.names.contains e.1) e.2

/-- What is filled in for a resource, nothing if its resource type is not found. -/
def fillings (symbols : Symbols) (l : Resource.Located) : List Filling :=
  match resourceType symbols l.resource with
  | .ok applied => resourceFillings symbols l applied
  | .error _ => []

end Resolution

/-- What is filled in when a document is resolved whose libraries are loaded. -/
def Api.fillings (a : Api) : List Filling :=
  a.located.flatMap (Resolution.fillings (Symbols.ofApi a))

/-! ## References -/

section Symbols

variable {α : Type} (symbols : Symbols)

/-- A name that stands for nothing is reported as such. -/
theorem Symbols.find_failsOwn (kind : SymbolKind) (t : Table (Symbol α)) (scope : Option String)
    (name : String) : FailsOwn (find kind t scope name) := by
  rw [find.eq_def]
  dsimp only
  split
  · exact .ok _
  · exact .error rfl

theorem Symbols.checkSecurity_failsOwn (cs : List (Option Choice)) :
    FailsOwn (symbols.checkSecurity cs) := by
  induction cs with
  | nil => exact .ok ()
  | cons c cs ih =>
    cases c with
    | none => exact ih
    | some c => exact (find_failsOwn _ _ _ _).bind fun _ _ => ih

end Symbols

/-- The values of a reference can be filled in. -/
theorem Choice.instantiate_failsOwn {d : Dictionary} {c : Choice}
    (h : (Filling.mk d (c.parameters.texts Value.texts) []).CanFill) : FailsOwn (c.instantiate d) :=
  (Merge.assigned_failsOwn h.texts).bind fun _ _ => .ok _

namespace Resolution

section Runs

variable {symbols : Symbols} {l : Resource.Located} {m m' m₀ : Method}

theorem resourceType_failsOwn (r : Resource) : FailsOwn (resourceType symbols r) := by
  rw [resourceType]
  split
  · exact .ok none
  · split
    · exact .ok none
    · exact (Symbols.find_failsOwn _ _ _ _).bind fun _ _ => .ok _

theorem traitStep_failsOwn (scope : Option String) (c : Choice) :
    FailsOwn (traitStep symbols l scope m c) :=
  (Symbols.find_failsOwn _ _ _ _).bind fun _ _ => .ok _

/-! ## Steps -/

/-- A step that can be filled in fails with an error of the language. -/
theorem Step.apply_failsOwn {s : Step} (h : s.filling.CanFill) (m : Method) :
    FailsOwn (s.apply m) := by
  refine Merge.method_failsOwn m ?_
  have hvalues : s.application.dictionary = s.values := application_dictionary _ _
  rw [hvalues]
  exact h

theorem foldlM_apply_failsOwn {ss : List Step} (h : ∀ s ∈ ss, s.filling.CanFill) (m : Method) :
    FailsOwn (ss.foldlM Step.apply m) := by
  have hstep : ∀ s ∈ ss, ∀ m : Method, True →
      FailsOwn (s.apply m) ∧ ∀ m', s.apply m = .ok m' → True :=
    fun s hs m _ => ⟨s.apply_failsOwn (h s hs) m, fun _ _ => trivial⟩
  exact FailsOwn.foldlM hstep trivial

theorem mem_foundFillings {find : Choice → Except Error Step} {cs : List Choice} {c : Choice}
    {s : Step} (hc : c ∈ cs) (hs : find c = .ok s) : s.filling ∈ foundFillings find cs :=
  List.mem_filterMap.mpr ⟨c, hc, by rw [hs]; rfl⟩

/-- A run over references fails as said if every step does that is found for one of them. The
invariant is the name of the method, on which the values depend. -/
theorem run_failsOwn {find : Choice → Except Error Step}
    {step : Method → Choice → Except Error Method}
    (hstep : ∀ m c, m.name = m₀.name → step m c = find c >>= Step.apply m) {cs : List Choice}
    (hfind : ∀ c ∈ cs, FailsOwn (find c)) (hfill : ∀ f ∈ foundFillings find cs, f.CanFill)
    (hname : m.name = m₀.name) : FailsOwn (cs.foldlM step m) := by
  refine FailsOwn.foldlM (I := fun m => m.name = m₀.name) ?_ hname
  intro c hc m hm
  rw [hstep m c hm]
  constructor
  · exact (hfind c hc).bind fun s hs => s.apply_failsOwn (hfill _ (mem_foundFillings hc hs)) m
  · intro m' h
    obtain ⟨s, -, h⟩ := bind_eq_ok.mp h
    exact (Step.apply_name h).trans hm

/-- Traits fail with an error of the language, if those that are found can be filled in. -/
theorem applyTraits_failsOwn {scope : Option String} {cs : List Choice}
    (hfill : ∀ f ∈ foundFillings (traitStep symbols l scope m) cs, f.CanFill) :
    FailsOwn (applyTraits symbols l scope m cs) := by
  rw [applyTraits_eq]
  exact run_failsOwn (fun _ c => applyTrait_eq_step c) (fun c _ => traitStep_failsOwn scope c)
    hfill rfl

theorem applyNamed_failsOwn {scope : Option String} {d : Dictionary} {cs : List Choice}
    (hgiven : ∀ c ∈ cs, (Filling.mk d (c.parameters.texts Value.texts) []).CanFill)
    (hfill : ∀ f ∈ foundFillings (fun c => c.instantiate d >>= traitStep symbols l scope m₀) cs,
      f.CanFill) (hname : m.name = m₀.name) :
    FailsOwn (applyNamed symbols l scope d m cs) := by
  rw [applyNamed_eq]
  refine run_failsOwn (fun m c hm => ?_) (fun c hc => ?_) hfill hname
  · rw [bind_assoc]
    exact bind_congr fun c' => applyTrait_eq_step c' hm
  · exact (Choice.instantiate_failsOwn (hgiven c hc)).bind fun c' _ => traitStep_failsOwn scope c'

/-- So does a resource type. -/
theorem applyResourceType_failsOwn {a : Applied} {isDeclared : Bool}
    (hfill : ∀ f ∈ typeFillings symbols l a isDeclared m₀, f.CanFill) (hname : m.name = m₀.name) :
    FailsOwn (applyResourceType symbols l a.symbol a.parameters isDeclared m) := by
  have htemplates := templatesFor_congr a.symbol.template isDeclared (verb_congr hname)
  rw [typeFillings] at hfill
  obtain ⟨hnames, hown⟩ := List.forall_mem_append.mp hfill
  obtain ⟨hgiven, hnamed⟩ := List.forall_mem_append.mp hnames
  rw [applyResourceType, htemplates, ofMethod_congr hname]
  refine (applyNamed_failsOwn (List.forall_mem_map.mp hgiven) hnamed hname).bind fun named _ => ?_
  rw [applyTemplates_eq_run]
  refine foldlM_apply_failsOwn (List.forall_mem_map.mpr fun t ht => ?_) named
  exact List.forall_mem_map.mp hown t ht

/-- A method is resolved if all can be filled in that goes to it. -/
theorem method_failsOwn {applied : Option Applied} {isDeclared : Bool}
    (hfill : ∀ f ∈ methodFillings symbols l applied isDeclared m, f.CanFill) :
    FailsOwn (method symbols l applied isDeclared m) := by
  rw [methodFillings, List.forall_mem_append] at hfill
  obtain ⟨hown, htype⟩ := hfill
  refine (applyTraits_failsOwn hown).bind fun next hnext => ?_
  have hsecured : ∀ m' : Method, FailsOwn (symbols.checkSecurity m'.securedBy >>= fun _ =>
      (.ok m' : Except Error Method)) :=
    fun m' => (symbols.checkSecurity_failsOwn _).bind fun _ _ => .ok m'
  cases applied with
  | none => exact hsecured next
  | some a =>
    -- the fillings of the type are listed for the method as it was before its traits
    have hname : next.name = m.name := applyTraits_name hnext
    have hadded : ∀ f ∈ typeFillings symbols l a isDeclared m, f.CanFill := fun f hf =>
      htype f (List.mem_flatMap.mpr ⟨a, List.mem_singleton_self a, hf⟩)
    exact (applyResourceType_failsOwn hadded hname).bind fun m' _ => hsecured m'

theorem methods_failsOwn {applied : Option Applied} {declared : List String} {t : Table Method}
    (h : ∀ e ∈ t, FailsOwn (method symbols l applied (declared.contains e.1) e.2)) :
    FailsOwn (methods symbols l applied declared t) := by
  induction t with
  | nil => exact .ok []
  | cons e t ih =>
    rw [List.forall_mem_cons] at h
    exact h.1.bind fun m _ => (ih h.2).bind fun rest _ => .ok ((e.1, m) :: rest)

/-! ## Facets -/

/-- The steps of a resolution leave the facets of a method apart from fields. -/
theorem foldlM_apply_facetsApart {ss : List Step} (hm : FacetsApart m.facetNames)
    (h : ss.foldlM Step.apply m = .ok m') : FacetsApart m'.facetNames := by
  induction ss generalizing m with
  | nil => exact pure_eq_ok.mp h ▸ hm
  | cons s ss ih =>
    rw [List.foldlM_cons] at h
    obtain ⟨next, hnext, h⟩ := bind_eq_ok.mp h
    exact ih (Merge.method_facetsApart hm hnext) h

/-- A method that a resource type adds has no shapes yet. -/
theorem withMethodsOf_facetsApart {ms : Table Method} (t : ResourceType)
    (h : ∀ e ∈ ms, FacetsApart e.2.facetNames) :
    ∀ e ∈ withMethodsOf ms t, FacetsApart e.2.facetNames := by
  rw [withMethodsOf]
  induction t.methods.names generalizing ms with
  | nil => exact h
  | cons n names ih =>
    rw [List.foldl_cons]
    refine ih ?_
    split
    · exact h
    · exact Table.forall_mem_set (C := fun e => FacetsApart (Method.facetNames e.2)) h
        facetsApart_nil

theorem methodsOf_facetsApart {r : Resource} (applied : Option Applied)
    (h : ∀ e ∈ r.methods, FacetsApart e.2.facetNames) :
    ∀ e ∈ methodsOf r applied, FacetsApart e.2.facetNames := by
  cases applied with
  | none => exact h
  | some a => exact withMethodsOf_facetsApart a.symbol.template h

end Runs

/-! ## Resources -/

section Resources

variable {symbols : Symbols} {above : List String} {r own : Resource} {applied : Option Applied}

/-- What a resource takes over from its type leaves its traits and its path as they are, so the same
is filled in for its methods. -/
theorem methodFillings_of_begun (h : IsBegun r own applied) (isDeclared : Bool) (m : Method) :
    methodFillings symbols ⟨own, above⟩ applied isDeclared m =
      methodFillings symbols ⟨r, above⟩ applied isDeclared m := by
  have hvalues := ofMethod_of_isBegun above h
  have hstep : ∀ scope,
      traitStep symbols ⟨own, above⟩ scope m = traitStep symbols ⟨r, above⟩ scope m := by
    intro scope
    funext c
    rw [traitStep, hvalues, traitStep]
  simp only [methodFillings, typeFillings, hstep, hvalues, h.traits]

theorem resource_failsOwn_of_begun (hbegun : begun ⟨r, above⟩ applied = .ok own)
    (hfill : ∀ f ∈ resourceFillings symbols ⟨r, above⟩ applied, f.CanFill)
    (hapart : ∀ e ∈ r.methods, FacetsApart e.2.facetNames) :
    FailsOwn (do
      let methods ← methods symbols ⟨own, above⟩ applied r.methods.names own.methods
      symbols.checkSecurity own.securedBy
      Resource.normalize { own with methods }) := by
  have hown : own.methods = methodsOf r applied := methods_of_begun hbegun
  obtain ⟨-, hmethods⟩ := List.forall_mem_append.mp hfill
  rw [List.forall_mem_flatMap] at hmethods
  refine FailsOwn.bind (methods_failsOwn fun e he => method_failsOwn ?_) fun ms hms => ?_
  · rw [methodFillings_of_begun (isBegun_of_begun hbegun)]
    exact hmethods e (hown ▸ he)
  · refine (symbols.checkSecurity_failsOwn _).bind fun _ _ => ?_
    -- the normal form merges bodies anew, so the methods must have come through with facets apart
    have hresolved : ∀ e ∈ ms, FacetsApart e.2.facetNames := by
      intro e he
      obtain ⟨m, hm, hmethod⟩ := (matches_of_methods hms).of_mem he
      obtain ⟨ss, -, hrun, -⟩ := method_eq_ok.mp hmethod
      exact foldlM_apply_facetsApart (methodsOf_facetsApart applied hapart _ (hown ▸ hm)) hrun
    exact (FailsOwn.mapValuesM fun e he => Method.normalize_failsOwn (hresolved e he)).bind
      fun _ _ => .ok _

theorem applyToResource_failsOwn {a : Applied}
    (h : (Filling.mk (Dictionary.ofResource ⟨r, above⟩ a.parameters) a.symbol.template.ownTexts
      []).CanFill) : FailsOwn (applyToResource ⟨r, above⟩ a) := by
  refine (Merge.resource_failsOwn r fun t ht => ?_).bind fun _ _ => .ok _
  rw [application_dictionary]
  exact h.texts t ht

/-- Whether all can be filled in for a resource, and the facets in its methods are apart from
fields. -/
structure IsReady (symbols : Symbols) (l : Resource.Located) : Prop where
  fillings : ∀ f ∈ fillings symbols l, f.CanFill
  apart : ∀ e ∈ l.resource.methods, FacetsApart e.2.facetNames

/-- What lies below a resource plays no part in what is filled in for it. -/
theorem IsReady.alone {l : Resource.Located} (h : IsReady symbols l) :
    IsReady symbols ⟨{ l.resource with nested := [] }, l.above⟩ := ⟨h.fillings, h.apart⟩

/-- A resource that is ready fails with an error of the language. -/
theorem resource_failsOwn (h : IsReady symbols ⟨r, above⟩) :
    FailsOwn (resource symbols above r) := by
  refine (resourceType_failsOwn r).bind fun applied htype => ?_
  have hfill : ∀ f ∈ resourceFillings symbols ⟨r, above⟩ applied, f.CanFill := by
    have hall := h.fillings
    rwa [fillings, htype] at hall
  cases applied with
  | none => exact resource_failsOwn_of_begun rfl hfill h.apart
  | some a =>
    have htype := hfill _ (List.mem_append_left _ (List.mem_singleton_self _))
    exact (applyToResource_failsOwn htype).bind fun own hown =>
      resource_failsOwn_of_begun hown hfill h.apart

mutual

/-- So does a tree of resources, if each of them is ready. -/
theorem tree_failsOwn : ∀ (r : Resource) (above : List String),
    (∀ l ∈ Resource.walk above r, IsReady symbols l) → FailsOwn (tree symbols above r)
  | ⟨_, uri, _, _, _, _, _, _, _, nested⟩, above, h => by
      rw [Resource.walk_eq, List.forall_mem_cons] at h
      obtain ⟨hready, hbelow⟩ := h
      rw [tree]
      refine (resource_failsOwn hready.alone).bind fun own _ => ?_
      exact (trees_failsOwn nested (uri :: above) hbelow).bind fun _ _ => .ok _

/-- A tree of resources is resolved, at whatever depth, if each resource is ready for it. -/
theorem trees_failsOwn : ∀ (rs : List (String × Resource)) (above : List String),
    (∀ l ∈ Resource.walkAll above rs, IsReady symbols l) → FailsOwn (trees symbols above rs)
  | [], _, _ => FailsOwn.ok []
  | (_, r) :: rest, above, h => by
      rw [Resource.walkAll, List.forall_mem_append] at h
      rw [trees]
      refine (tree_failsOwn r above h.1).bind fun top _ => ?_
      exact (trees_failsOwn rest above h.2).bind fun _ _ => .ok _

end

end Resources

end Resolution

/-- A document whose fillings can all be filled in is resolved, or an error of the language says why
not. -/
theorem Api.resolve_failsOwn {a : Api} (hfill : ∀ f ∈ a.fillings, f.CanFill)
    (hapart : ∀ l ∈ a.located, ∀ e ∈ l.resource.methods, FacetsApart e.2.facetNames) :
    FailsOwn a.resolve := by
  have hready : ∀ l ∈ a.located, Resolution.IsReady (Symbols.ofApi a) l := fun l hl =>
    ⟨fun f hf => hfill f (List.mem_flatMap.mpr ⟨l, hl, hf⟩), hapart l hl⟩
  refine (Symbols.checkSecurity_failsOwn _ _).bind fun _ _ => ?_
  exact (Resolution.trees_failsOwn a.resources [] hready).bind fun _ _ => .ok _

/-! ## Documents -/

theorem Error.isOwn_ofProblems (source : String) {ps : List Problem}
    (h : ∀ p ∈ ps, p.what ≠ .longNumber) : (ofProblems source ps).isOwn = true := by
  have hnone : (ps.any fun p => p.what == .longNumber) = false := by simpa using h
  rw [ofProblems, hnone]
  rfl

/-- A document is built or told to be wrong if every integer in it has a text. -/
theorem Api.build_failsOwn (source version : String) {entries : List (Value × Value)}
    (h : (Value.map entries).isShown = true) : FailsOwn (build source version entries) := by
  have htold := isTold_read h
  rw [build]
  split
  · exact .ok _
  · rename_i problems hbad
    rw [hbad] at htold
    exact .error (Error.isOwn_ofProblems source htold)

namespace Access

variable {a : Access} {docs chain : List String} {base : String} {api : Api} {j : Journal}

/-- Loading the libraries of a document adds them to it, unless their references run in a circle. -/
theorem libraries_ok_or_cyclic (hdepth : docs.length ≤ a.store.depth)
    (hdocs : a.IsComplete docs chain) (huses : RefersTo docs chain base api.declared.uses)
    (hdistinct : api.declared.uses.Distinct) :
    (∃ libraries s, a.libraries chain base api ⟨j, []⟩ = .ok { api with libraries } s) ∨
      ∃ c s, a.libraries chain base api ⟨j, []⟩ = .error (.cyclic c) s := by
  obtain ⟨hcyclic, -, hloads⟩ := Library.loadUses_spec a docs chain base api.libraries
    api.declared.uses j (a.store.depth + 1) (by omega) hdocs huses hdistinct
  rw [Access.libraries]
  by_cases hloop : ∃ m, a.Reaches base api.declared.uses m ∧ a.IsLoop chain m
  · obtain ⟨c, s, h⟩ := hcyclic.mpr hloop
    exact .inr ⟨c, s, bind_of_error h⟩
  · obtain ⟨libraries, s, h, -⟩ := hloads hloop
    exact .inl ⟨libraries, s, bind_of_ok h⟩

/-- Builds the API definition that entries describe, loads its libraries and resolves it, which is
all that `parseText` does with a text once it is decoded. -/
def define (a : Access) (base source version : String) (entries : List (Value × Value)) :
    Load Api := do
  let api ← ofExcept (Api.build source version entries)
  a.resolve base source api

example (a : Access) (base source text : String) : a.parseText base source text =
      a.loadText [] base source text >>= fun draft =>
        a.define base source draft.version draft.entries := rfl

/-- **Resolution fails only with errors of the language.** Let libraries be given, finitely many and
all of which decode, that use one another or the document. Then the entries of the document either
define an API definition or there is an error of the language that says why not, if every integer in
the entries has a text and whatever the templates fill in can be filled in: no word is empty where a
letter is asked for, no value lacks a text, and no facet comes to stand in the place of a field. -/
theorem resolves_or_failsOwn (a : Access) (base source version : String)
    (entries : List (Value × Value)) (docs : List String) (j : Journal)
    (hdepth : docs.length ≤ a.store.depth) (hdocs : a.IsComplete docs [source])
    (hshown : (Value.map entries).isShown = true)
    (huses : ∀ api, Api.build source version entries = .ok api →
      RefersTo docs [source] base api.declared.uses)
    (hfill : ∀ api loaded s, Api.build source version entries = .ok api →
      a.libraries [source] base api ⟨j, []⟩ = .ok loaded s → ∀ f ∈ loaded.fillings, f.CanFill) :
    (∃ api j', a.define base source version entries j = .ok api j') ∨
      ∃ e j', a.define base source version entries j = .error e j' ∧ e.isOwn = true := by
  cases hrun : a.define base source version entries j with
  | ok api j' => exact .inl ⟨api, j', rfl⟩
  | error e j' =>
    refine .inr ⟨e, j', rfl, ?_⟩
    cases hbuild : Api.build source version entries with
    | error e' =>
      rw [define, hbuild] at hrun
      cases hrun
      exact Api.build_failsOwn source version hshown e hbuild
    | ok api =>
      rw [define, bind_of_ok (ofExcept_of_ok hbuild)] at hrun
      rcases libraries_ok_or_cyclic (j := j) hdepth hdocs (huses api hbuild)
        (Api.distinct_uses_of_build hbuild) with ⟨libraries, s, hloaded⟩ | ⟨c, s, hcyclic⟩
      · have hload : Shelving.toLoad (a.libraries [source] base api) j =
            .ok { api with libraries } s.journal := by
          rw [Shelving.toLoad, hloaded]
        rw [resolve, bind_of_ok hload] at hrun
        -- the libraries leave the resources alone, whose shapes were read with the document
        have hapart := Api.facetsApart_of_build hbuild
        exact Api.resolve_failsOwn (hfill api _ s hbuild hloaded) hapart e
          (of_run_ofExcept_error hrun)
      · have hload : Shelving.toLoad (a.libraries [source] base api) j =
            .error (.cyclic c) s.journal := by
          rw [Shelving.toLoad, hcyclic]
        rw [resolve, bind_of_error hload] at hrun
        cases hrun
        rfl

/-- One library, which declares a trait. -/
def shelf : Access where
  store := {
    read := fun l =>
      if l = "lib.raml" then .ok "#%RAML 1.0 Library\ntraits: {paged: }\n".toUTF8.toList
      else .error .location
    depth := 1 }
  settings := default

/-- A document that uses the library, with a resource type that asks for an inflector which nobody
knows. -/
def shop : List (Value × Value) := [
  (.str "title", .str "Shop"),
  (.str "uses", .map [(.str "lib", .str "lib.raml")]),
  (.str "resourceTypes", .map [(.str "item", .map [
    (.str "description", .str "One <<resourcePathName | !shout>>")])]),
  (.str "/books", .map [
    (.str "type", .str "item"),
    (.str "get", .map [(.str "is", .list [.str "lib.paged"])])])]

theorem shelf_isComplete : shelf.IsComplete ["lib.raml"] ["shop.raml"] := by
  intro l hl
  obtain rfl := List.mem_singleton.mp hl
  obtain ⟨library, hdraft, huses⟩ : ∃ library, shelf.draft "lib.raml" = .ok (library, ".") ∧
      library.declared.uses = [] := draft_of_uses (by decide +kernel)
  exact ⟨library, ".", hdraft, huses ▸ List.forall_mem_nil _⟩

theorem refersTo_of_build {source version : String} {entries : List (Value × Value)}
    {uses : Table String} (h : RefersTo docs chain base uses)
    (huses : (Api.build source version entries).toOption.map (·.declared.uses) = some uses) :
    ∀ api, Api.build source version entries = .ok api →
      RefersTo docs chain base api.declared.uses := by
  intro api hbuild
  rw [hbuild] at huses
  have hsame : api.declared.uses = uses := Option.some.inj huses
  rwa [hsame]

/-- What resolving `shop` fails with is an error of the language. -/
theorem shop_failsOwn : ∃ e j',
    shelf.define "." "shop.raml" "1.0" shop .empty = .error e j' ∧ e.isOwn = true := by
  have hfails : (shelf.define "." "shop.raml" "1.0" shop).outcome.isOk = false := by decide +kernel
  have hjoin : Location.join "." "lib.raml" = .ok "lib.raml" := by decide +kernel
  have huses : RefersTo ["lib.raml"] ["shop.raml"] "." [("lib", "lib.raml")] := by
    intro e he
    rw [List.mem_singleton.mp he]
    exact ⟨"lib.raml", hjoin, .inl (List.mem_singleton_self _)⟩
  have hfill : (Api.build "shop.raml" "1.0" shop).toOption.all (fun api =>
      (shelf.libraries ["shop.raml"] "." api).toLoad.outcome.toOption.all fun loaded =>
        decide (∀ f ∈ loaded.fillings, f.CanFill)) = true := by decide +kernel
  refine (resolves_or_failsOwn shelf "." "shop.raml" "1.0" shop ["lib.raml"] .empty (by decide)
    shelf_isComplete (by decide) (refersTo_of_build huses (by decide +kernel)) ?_).resolve_left ?_
  · intro api loaded s hbuild hloaded
    simpa [hbuild, hloaded, Load.outcome, Shelving.toLoad, Except.toOption] using hfill
  · rintro ⟨api, j', hrun⟩
    rw [Load.outcome, hrun] at hfails
    cases hfails

/-- A document with a resource whose path has no letters outside of its parameters. -/
def pathless : List (Value × Value) := [
  (.str "title", .str "Shop"),
  (.str "resourceTypes", .map [(.str "item", .map [
    (.str "description", .str "One <<resourcePathName | !lowercamelcase>>")])]),
  (.str "/\x7bid\x7d", .map [(.str "type", .str "item")])]

/-- A document whose title is an integer with more figures than a text can have. -/
def longTitle : List (Value × Value) := [(.str "title", .int (10 ^ 4300))]

/-- The name of that path is empty, and the first letter of it is asked for; and of that title there
is no text. Neither document uses a library, and still no error of the language says what is
wrong. -/
theorem pathless_emptyWord : shelf.IsComplete [] ["shop.raml"] ∧
    (∀ api, Api.build "shop.raml" "1.0" pathless = .ok api →
      RefersTo [] ["shop.raml"] "." api.declared.uses) ∧
    (∃ j', shelf.define "." "shop.raml" "1.0" pathless .empty = .error .emptyWord j' ∧
      Error.emptyWord.isOwn = false) ∧
    ∃ j', shelf.define "." "shop.raml" "1.0" longTitle .empty = .error (.value .number) j' ∧
      (Error.value .number).isOwn = false := by
  have huses : RefersTo [] ["shop.raml"] "." [] := List.forall_mem_nil _
  have hword : (shelf.define "." "shop.raml" "1.0" pathless).outcome.map (fun _ => ()) =
      .error .emptyWord := by
    decide +kernel
  have hnumber : (shelf.define "." "shop.raml" "1.0" longTitle).outcome.map (fun _ => ()) =
      .error (.value .number) := by
    decide +kernel
  refine ⟨List.forall_mem_nil _, refersTo_of_build huses (by decide +kernel), ?_, ?_⟩
  · obtain ⟨j', hrun⟩ := Load.run_of_outcome_error (map_eq_error.mp hword)
    exact ⟨j', hrun, rfl⟩
  · obtain ⟨j', hrun⟩ := Load.run_of_outcome_error (map_eq_error.mp hnumber)
    exact ⟨j', hrun, rfl⟩

end Access
end Raml
