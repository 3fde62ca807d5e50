import Raml.Proofs.Merge.Provided
import Raml.Proofs.Resolution.Symbols
import Raml.Proofs.Resolution.Tree

/-!
# Every template that applies is provided for

A resolved method has what each of its templates calls for: the traits of its resource and its own,
those that the resource type and its templates for the verb name, and these templates. Each of
them is applied at a moment of its own, with its own values; `GrowsTo` carries what it left
behind to the end (`method_provided`). Every resource of a result is what one of the document is
resolved to, and so all of them have it (`provided_of_resolve`).

The verb of a method is what its name says, and templates are looked up by it. It is the key of
the method where the keys are verbs and the methods have no names of their own (`MethodsAreVerbs`).
-/

namespace Raml

open Template (Dictionary)

/-! ## Documents with verbs as keys -/

/-- Whether the keys of methods are verbs, and their names are made of them. -/
def Method.TableIsByVerb (t : Table Method) : Prop :=
  ∀ e ∈ t, e.1 ∈ verbs ∧ e.2.name = Method.nameOfKey e.1

instance (t : Table Method) : Decidable (Method.TableIsByVerb t) :=
  inferInstanceAs (Decidable (∀ e ∈ t, _))

/-- Whether the methods of every resource stand under verbs, with names made of them, and those of
every resource type under verbs. -/
structure Api.MethodsAreVerbs (a : Api) : Prop where
  resources : ∀ r, Resource.Within a.resources r → Method.TableIsByVerb r.methods
  resourceTypes : ∀ t : ResourceType, a.Declares .resourceType t →
    ∀ verb ∈ t.methods.names, verb ∈ verbs

namespace Resolution

/-! ## What applies to a method -/

/-- The resource type that a resource names, with the values given to it. -/
def HasType (symbols : Symbols) (r : Resource) (a : Applied) : Prop :=
  ∃ c, r.type = some c ∧ c.name ≠ "" ∧ symbols.resourceType none c.name = .ok a.symbol ∧
    a.parameters = c.parameters

/-- The templates of a resource type for a verb; the optional one counts where the resource has the
method itself. -/
def IsTemplateFor (r : Resource) (verb : String) (t : ResourceType) (template : Method) : Prop :=
  t.methods.get? verb = some template ∨
    r.methods.has verb = true ∧ t.optionalMethods.get? verb = some template

/-- Whether a method has what a trait calls for that is named in the library under `scope`. -/
def TraitProvided (symbols : Symbols) (l : Resource.Located) (scope : Option String) (c : Choice)
    (m : Method) : Prop :=
  ∃ s, symbols.trait scope c.name = .ok s ∧
    m.Provides (Dictionary.ofMethod l m c.parameters) s.template.method

/-- Whether a method has what a trait calls for that its resource type names. -/
def NamedProvided (symbols : Symbols) (l : Resource.Located) (a : Applied) (c : Choice)
    (m : Method) : Prop :=
  ∃ c', c.instantiate (Dictionary.ofMethod l m a.parameters) = .ok c' ∧
    TraitProvided symbols l a.symbol.aliasName c' m

/-- Whether the method of a resource for a verb has what every template calls for that applies. -/
structure MethodProvided (symbols : Symbols) (l : Resource.Located) (verb : String) (m : Method) :
    Prop where
  named : m.verb = verb
  resourceTraits : ∀ c ∈ l.resource.traits, TraitProvided symbols l none c m
  ownTraits : ∀ own, l.resource.methods.get? verb = some own →
    ∀ c ∈ own.traits, TraitProvided symbols l none c m
  typeTraits : ∀ a, HasType symbols l.resource a →
    ∀ c ∈ a.symbol.template.traits, NamedProvided symbols l a c m
  templateTraits : ∀ a, HasType symbols l.resource a →
    ∀ t, IsTemplateFor l.resource verb a.symbol.template t →
      ∀ c ∈ t.traits, NamedProvided symbols l a c m
  templates : ∀ a, HasType symbols l.resource a →
    ∀ t, IsTemplateFor l.resource verb a.symbol.template t →
      m.Provides (Dictionary.ofMethod l m a.parameters) t

/-- Whether a resource has the methods that it declares and those of its resource type, with what
every template calls for that applies to them. -/
structure ResourceProvided (symbols : Symbols) (l : Resource.Located) (r : Resource) : Prop where
  uri : r.uri = l.resource.uri
  typeFound : ∀ c, l.resource.type = some c → c.name ≠ "" →
    ∃ s, symbols.resourceType none c.name = .ok s
  methods : ∀ verb, verb ∈ r.methods.names ↔ verb ∈ l.resource.methods.names ∨
    ∃ a, HasType symbols l.resource a ∧ verb ∈ a.symbol.template.methods.names
  provided : ∀ verb m, r.methods.get? verb = some m → MethodProvided symbols l verb m

/-! ## Runs over templates -/

section Runs

variable {symbols : Symbols} {r l : Resource.Located} {scope : Option String} {m m' : Method}

/-- A method that grows stays what templates know of it. -/
theorem ofMethod_of_growsTo (h : m.GrowsTo m') :
    Dictionary.ofMethod l m' = Dictionary.ofMethod l m := by
  funext parameters
  rw [Dictionary.ofMethod, h.verb, Dictionary.ofMethod]

theorem TraitProvided.mono {c : Choice} (h : TraitProvided symbols l scope c m)
    (hgrows : m.GrowsTo m') : TraitProvided symbols l scope c m' := by
  obtain ⟨s, hs, hprovides⟩ := h
  rw [TraitProvided, ofMethod_of_growsTo hgrows]
  exact ⟨s, hs, hprovides.mono hgrows⟩

theorem NamedProvided.mono {a : Applied} {c : Choice} (h : NamedProvided symbols l a c m)
    (hgrows : m.GrowsTo m') : NamedProvided symbols l a c m' := by
  obtain ⟨c', hc', hprovided⟩ := h
  rw [NamedProvided, ofMethod_of_growsTo hgrows]
  exact ⟨c', hc', hprovided.mono hgrows⟩

/-- What one step of a run leaves behind is there when the run ends. -/
theorem run_provided {α : Type} {step : Method → α → Except Error Method} {P : α → Method → Prop}
    (hstep : ∀ m a m', step m a = .ok m' → m.GrowsTo m' ∧ P a m')
    (hmono : ∀ a m m', m.GrowsTo m' → P a m → P a m') {as : List α}
    (h : as.foldlM step m = .ok m') : m.GrowsTo m' ∧ ∀ a ∈ as, P a m' := by
  induction as generalizing m with
  | nil =>
    cases pure_eq_ok.mp h
    exact ⟨Method.growsTo_refl _, List.forall_mem_nil _⟩
  | cons a as ih =>
    rw [List.foldlM_cons] at h
    obtain ⟨next, hnext, h⟩ := bind_eq_ok.mp h
    obtain ⟨hgrows, hall⟩ := ih h
    obtain ⟨hgrows', ha⟩ := hstep m a next hnext
    exact ⟨hgrows'.trans hgrows, List.forall_mem_cons.mpr ⟨hmono a next m' hgrows ha, hall⟩⟩

/-- Traits are applied one after the other. -/
theorem applyTraits_eq (cs : List Choice) :
    applyTraits symbols r scope m cs = cs.foldlM (applyTrait symbols r scope) m := by
  induction cs generalizing m with
  | nil => rfl
  | cons c cs ih =>
    rw [applyTraits, List.foldlM_cons]
    exact bind_congr fun _ => ih

theorem applyNamed_eq {d : Dictionary} (cs : List Choice) :
    applyNamed symbols r scope d m cs =
      cs.foldlM (fun m c => do applyTrait symbols r scope m (← c.instantiate d)) m := by
  induction cs generalizing m with
  | nil => rfl
  | cons c cs ih =>
    rw [applyNamed, List.foldlM_cons, bind_assoc]
    exact bind_congr fun _ => bind_congr fun _ => ih

theorem applyTemplates_eq {app : Application} (ts : List Method) :
    applyTemplates app m ts = ts.foldlM (Merge.method app) m := by
  induction ts generalizing m with
  | nil => rfl
  | cons t ts ih =>
    rw [applyTemplates, List.foldlM_cons]
    exact bind_congr fun _ => ih

/-- The dictionary of an application. -/
theorem application_dictionary {α : Type} (s : Symbol α) (d : Dictionary) :
    (s.application d).dictionary = d := by
  rw [Symbol.application]
  split <;> rfl

theorem templatesFor_congr (t : ResourceType) (isDeclared : Bool) (h : m'.verb = m.verb) :
    templatesFor t m' isDeclared = templatesFor t m isDeclared := by
  rw [templatesFor, h, templatesFor]

variable (hvalues : Dictionary.ofMethod r = Dictionary.ofMethod l)
include hvalues

theorem applyTrait_provided {c : Choice} (h : applyTrait symbols r scope m c = .ok m') :
    m.GrowsTo m' ∧ TraitProvided symbols l scope c m' := by
  obtain ⟨s, hs, h⟩ := bind_eq_ok.mp h
  have hgrows := Merge.method_growsTo h
  have hprovides := Merge.method_provides h
  rw [application_dictionary, hvalues, ← ofMethod_of_growsTo hgrows] at hprovides
  exact ⟨hgrows, s, hs, hprovides⟩

/-- A method grows with its traits and has what each of them says. -/
theorem applyTraits_provided {cs : List Choice} (h : applyTraits symbols r scope m cs = .ok m') :
    m.GrowsTo m' ∧ ∀ c ∈ cs, TraitProvided symbols l scope c m' := by
  rw [applyTraits_eq] at h
  exact run_provided (P := TraitProvided symbols l scope)
    (fun _ _ _ => applyTrait_provided hvalues) (fun _ _ _ hgrows hc => hc.mono hgrows) h

theorem applyNamed_provided {d : Dictionary} {cs : List Choice}
    (h : applyNamed symbols r scope d m cs = .ok m') :
    m.GrowsTo m' ∧ ∀ c ∈ cs, ∃ c', c.instantiate d = .ok c' ∧
      TraitProvided symbols l scope c' m' := by
  rw [applyNamed_eq] at h
  refine run_provided (P := fun c m => ∃ c', c.instantiate d = .ok c' ∧
    TraitProvided symbols l scope c' m) ?_ ?_ h
  · intro m c m' h
    obtain ⟨c', hc', h⟩ := bind_eq_ok.mp h
    obtain ⟨hgrows, hprovided⟩ := applyTrait_provided hvalues h
    exact ⟨hgrows, c', hc', hprovided⟩
  · rintro c m m' hgrows ⟨c', hc', hprovided⟩
    exact ⟨c', hc', hprovided.mono hgrows⟩

omit hvalues in
/-- A method grows with the methods of a resource type and has what each of them says. -/
theorem applyTemplates_provided {app : Application} {ts : List Method}
    (h : applyTemplates app m ts = .ok m') :
    m.GrowsTo m' ∧ ∀ t ∈ ts, m'.Provides app.dictionary t := by
  rw [applyTemplates_eq] at h
  exact run_provided (P := fun t m => m.Provides app.dictionary t)
    (fun _ _ _ h => ⟨Merge.method_growsTo h, Merge.method_provides h⟩)
    (fun _ _ _ hgrows h => h.mono hgrows) h

/-- Applying a resource type leaves behind what it and its templates name, and the templates. -/
theorem applyResourceType_provided {a : Applied} {isDeclared : Bool}
    (h : applyResourceType symbols r a.symbol a.parameters isDeclared m = .ok m') :
    m.GrowsTo m' ∧
      (∀ c ∈ a.symbol.template.traits ++
        (templatesFor a.symbol.template m isDeclared).flatMap Method.traits,
          NamedProvided symbols l a c m') ∧
      ∀ t ∈ templatesFor a.symbol.template m isDeclared,
        m'.Provides (Dictionary.ofMethod l m' a.parameters) t := by
  obtain ⟨named, hnamed, h⟩ := bind_eq_ok.mp h
  obtain ⟨hgrows, hall⟩ := applyNamed_provided hvalues hnamed
  obtain ⟨hgrows', htemplates⟩ := applyTemplates_provided h
  have hwhole := hgrows.trans hgrows'
  rw [application_dictionary, hvalues, ← ofMethod_of_growsTo hwhole] at htemplates
  rw [hvalues, ← ofMethod_of_growsTo hwhole] at hall
  refine ⟨hwhole, fun c hc => ?_, htemplates⟩
  obtain ⟨c', hc', hprovided⟩ := hall c hc
  exact ⟨c', hc', hprovided.mono hgrows'⟩

/-- A method has in the end what its traits call for, those of its resource, and what the resource
type adds. -/
theorem method_provided {applied : Option Applied} {isDeclared : Bool}
    (h : method symbols r applied isDeclared m = .ok m') :
    m.GrowsTo m' ∧
      (∀ c ∈ r.resource.traits ++ m.traits, TraitProvided symbols l none c m') ∧
      ∀ a, applied = some a →
        (∀ c ∈ a.symbol.template.traits ++
          (templatesFor a.symbol.template m isDeclared).flatMap Method.traits,
            NamedProvided symbols l a c m') ∧
        ∀ t ∈ templatesFor a.symbol.template m isDeclared,
          m'.Provides (Dictionary.ofMethod l m' a.parameters) t := by
  obtain ⟨traits, htraits, h⟩ := bind_eq_ok.mp h
  obtain ⟨hgrows, hown⟩ := applyTraits_provided hvalues htraits
  cases applied with
  | none =>
    obtain ⟨last, hlast, h⟩ := bind_eq_ok.mp h
    obtain rfl := Except.ok.inj hlast
    obtain ⟨_, -, h⟩ := bind_eq_ok.mp h
    cases pure_eq_ok.mp h
    exact ⟨hgrows, hown, nofun⟩
  | some a =>
    obtain ⟨last, hlast, h⟩ := bind_eq_ok.mp h
    obtain ⟨_, -, h⟩ := bind_eq_ok.mp h
    cases pure_eq_ok.mp h
    obtain ⟨hgrows', htype⟩ := applyResourceType_provided hvalues hlast
    -- the traits have left the name alone, so the templates are those of the verb at the start
    have hsame := templatesFor_congr a.symbol.template isDeclared hgrows.verb
    refine ⟨hgrows.trans hgrows', fun c hc => (hown c hc).mono hgrows', ?_⟩
    intro a' ha'
    obtain rfl := Option.some.inj ha'
    rwa [hsame] at htype

end Runs

/-! ## The methods of a resource -/

theorem mem_templatesFor {t : ResourceType} {m template : Method} {isDeclared : Bool} :
    template ∈ templatesFor t m isDeclared ↔ t.methods.get? m.verb = some template ∨
      isDeclared = true ∧ t.optionalMethods.get? m.verb = some template := by
  cases isDeclared <;> simp [templatesFor, List.mem_append, Option.mem_toList]

/-- A resource has its own methods, and those of its type that it lacks, still empty. -/
theorem get?_withMethodsOf (verb : String) (ms : Table Method) (t : ResourceType) :
    (withMethodsOf ms t).get? verb = (ms.get? verb).or (if verb ∈ t.methods.names then
      some (Method.named (Text.Unicode.toUpper verb)) else none) := by
  rw [withMethodsOf]
  -- along the verbs of the type; a verb that is there already adds nothing
  induction t.methods.names generalizing ms with
  | nil => rw [List.foldl_nil, if_neg List.not_mem_nil, Option.or_none]
  | cons n names ih =>
    rw [List.foldl_cons, ih]
    by_cases hn : verb = n
    · subst hn
      rw [if_pos (List.mem_cons_self ..)]
      split
      · rename_i hhas
        rw [Option.or_of_isSome hhas, Option.or_of_isSome hhas]
      · rename_i hhas
        rw [Table.get?_set_self, Table.get?_of_not_has hhas]
        rfl
    · have hsame : (if ms.has n then ms
          else ms.set n (Method.named (Text.Unicode.toUpper n))).get? verb = ms.get? verb := by
        split
        · rfl
        · exact Table.get?_set_of_ne hn _ _
      simp only [hsame, List.mem_cons, hn, false_or]

theorem matches_of_methods {symbols : Symbols} {l : Resource.Located} {applied : Option Applied}
    {declared : List String} : ∀ {t t' : Table Method},
      methods symbols l applied declared t = .ok t' →
      t.Matches (fun verb m m' => method symbols l applied (declared.contains verb) m = .ok m') t'
  | [], _, h => by
      rw [methods] at h
      cases h
      exact .nil
  | (verb, m) :: t, _, h => by
      rw [methods] at h
      obtain ⟨m', hm, h⟩ := bind_eq_ok.mp h
      obtain ⟨rest, hrest, h⟩ := bind_eq_ok.mp h
      rw [← pure_eq_ok.mp h]
      exact .cons ⟨rfl, hm⟩ (matches_of_methods hrest)

/-- What the verb of a method is, if its name is made of a verb. -/
theorem verb_of_verbs : ∀ verb ∈ verbs,
    Text.Unicode.toLower (Method.nameOfKey verb) = verb ∧
      Text.Unicode.toLower (Text.Unicode.toUpper verb) = verb := by
  decide +kernel

/-! ## Resources -/

section Resources

variable {symbols : Symbols} {above : List String} {r own r' : Resource} {applied : Option Applied}

/-- The resource type that a resource names is found and applied. -/
theorem found_of_resourceType (h : resourceType symbols r = .ok applied) {c : Choice}
    (hc : r.type = some c) (hname : c.name ≠ "") :
    ∃ s, symbols.resourceType none c.name = .ok s ∧ applied = some ⟨s, c.parameters⟩ := by
  rw [resourceType, hc] at h
  simp only [String.isEmpty_iff, hname, if_false] at h
  obtain ⟨s, hs, h⟩ := bind_eq_ok.mp h
  exact ⟨s, hs, (pure_eq_ok.mp h).symm⟩

/-- The resource type that is applied is the one that the resource names. -/
theorem hasType_iff (h : resourceType symbols r = .ok applied) (a : Applied) :
    HasType symbols r a ↔ applied = some a := by
  constructor
  · rintro ⟨c, hc, hname, hs, hparameters⟩
    obtain ⟨s, hs', happlied⟩ := found_of_resourceType h hc hname
    rw [happlied, ← hparameters, Except.ok.inj (hs'.symm.trans hs)]
  · rintro rfl
    rw [resourceType] at h
    split at h
    · cases h
    · rename_i c hc
      split at h
      · cases h
      · rename_i hname
        obtain ⟨s, hs, h⟩ := bind_eq_ok.mp h
        obtain rfl := Option.some.inj (pure_eq_ok.mp h)
        exact ⟨c, hc, by simpa using hname, hs, rfl⟩

/-- The verbs for which a resource type has methods. -/
def addedVerbs : Option Applied → List String
  | none => []
  | some a => a.symbol.template.methods.names

/-- What a resource is when its methods are about to be resolved. -/
structure IsBegun (r own : Resource) (applied : Option Applied) : Prop where
  uri : own.uri = r.uri
  traits : own.traits = r.traits
  methods : ∀ verb, own.methods.get? verb = (r.methods.get? verb).or
    (if verb ∈ addedVerbs applied then some (Method.named (Text.Unicode.toUpper verb)) else none)

theorem isBegun_none : IsBegun r r none :=
  ⟨rfl, rfl, fun _ => by rw [addedVerbs, if_neg List.not_mem_nil, Option.or_none]⟩

theorem isBegun_some {a : Applied} (h : applyToResource ⟨r, above⟩ a = .ok own) :
    IsBegun r own (some a) := by
  obtain ⟨merged, hmerged, h⟩ := bind_eq_ok.mp h
  cases pure_eq_ok.mp h
  rw [(Merge.resource_eq_ok.mp hmerged).others]
  exact ⟨rfl, rfl, fun verb => get?_withMethodsOf verb _ _⟩

theorem isBegun_of_begun {l : Resource.Located} (h : begun l applied = .ok own) :
    IsBegun l.resource own applied := by
  cases applied with
  | none => exact Except.ok.inj h ▸ isBegun_none
  | some a => exact isBegun_some h

/-- A resource begins with its own methods and those that its resource type adds. -/
theorem mem_names_of_begun (h : IsBegun r own applied) (verb : String) :
    verb ∈ own.methods.names ↔ verb ∈ r.methods.names ∨ verb ∈ addedVerbs applied := by
  rw [← Table.has_iff_mem_names, ← Table.has_iff_mem_names, Table.has, h.methods, Table.has,
    Option.isSome_or, Bool.or_eq_true]
  split <;> simp [*]

/-- A method to be resolved has its key as its verb, and the traits of the one that the resource
declares. -/
theorem verb_of_begun (h : IsBegun r own applied) (hverbs : Method.TableIsByVerb r.methods)
    (hadded : ∀ verb ∈ addedVerbs applied, verb ∈ verbs) {verb : String} {m : Method}
    (hm : own.methods.get? verb = some m) :
    m.verb = verb ∧
      ∀ declared, r.methods.get? verb = some declared → declared.traits = m.traits := by
  rw [h.methods] at hm
  cases hget : r.methods.get? verb with
  | some declared =>
    rw [hget, Option.some_or] at hm
    obtain rfl := Option.some.inj hm
    obtain ⟨hverb, hname⟩ := hverbs _ (Table.mem_of_get? hget)
    refine ⟨?_, fun d hd => by rw [Option.some.inj hd]⟩
    rw [Method.verb, hname, (verb_of_verbs verb hverb).1]
  | none =>
    rw [hget, Option.none_or] at hm
    split at hm
    · rename_i hmem
      obtain rfl := Option.some.inj hm
      exact ⟨(verb_of_verbs verb (hadded verb hmem)).2, nofun⟩
    · cases hm

theorem ofMethod_of_isBegun (above : List String) (h : IsBegun r own applied) :
    Dictionary.ofMethod ⟨own, above⟩ = Dictionary.ofMethod ⟨r, above⟩ := by
  funext m parameters
  simp only [Dictionary.ofMethod, Dictionary.ofResource, Resource.Located.fullUri,
    Resource.Located.pathName, h.uri]

/-- A method that was resolved from one of the resource has what every template calls for. -/
theorem methodProvided_of_begun (h : IsBegun r own applied)
    (happlied : resourceType symbols r = .ok applied)
    (hverbs : Method.TableIsByVerb r.methods) (hadded : ∀ verb ∈ addedVerbs applied, verb ∈ verbs)
    {verb : String} {m m' m'' : Method} (hm : own.methods.get? verb = some m)
    (hresolved : method symbols ⟨own, above⟩ applied (r.methods.names.contains verb) m =
      .ok m') (hnormal : m'.normalize = .ok m'') :
    MethodProvided symbols ⟨r, above⟩ verb m'' := by
  obtain ⟨hverb, htraits⟩ := verb_of_begun h hverbs hadded hm
  obtain ⟨hgrows, hown, htype⟩ :=
    method_provided (ofMethod_of_isBegun above h) hresolved
  -- the normal form loses nothing that a step added
  have hgrows' := Method.growsTo_normalize hnormal
  have happlied' : ∀ a, HasType symbols r a → applied = some a :=
    fun a => (hasType_iff happlied a).mp
  have htemplate : ∀ a : Applied, ∀ t, IsTemplateFor r verb a.symbol.template t →
      t ∈ templatesFor a.symbol.template m (r.methods.names.contains verb) := by
    intro a t ht
    rwa [mem_templatesFor, hverb, List.contains_iff_mem, ← Table.has_iff_mem_names]
  exact {
    named := hgrows'.verb.trans (hgrows.verb.trans hverb)
    resourceTraits := fun c hc =>
      (hown c (List.mem_append_left _ (h.traits.symm ▸ hc))).mono hgrows'
    ownTraits := fun declared hdeclared c hc =>
      (hown c (List.mem_append_right _ (htraits declared hdeclared ▸ hc))).mono hgrows'
    typeTraits := fun a ha c hc =>
      ((htype a (happlied' a ha)).1 c (List.mem_append_left _ hc)).mono hgrows'
    templateTraits := fun a ha t ht c hc =>
      ((htype a (happlied' a ha)).1 c (List.mem_append_right _
        (List.mem_flatMap.mpr ⟨t, htemplate a t ht, hc⟩))).mono hgrows'
    templates := fun a ha t ht => by
      rw [ofMethod_of_growsTo hgrows']
      exact ((htype a (happlied' a ha)).2 t (htemplate a t ht)).mono hgrows' }

/-- A resolved resource has what its resource type and its traits say, method by method. -/
theorem resource_provided (h : resource symbols above r = .ok r')
    (hverbs : Method.TableIsByVerb r.methods)
    (hadded : ∀ a, HasType symbols r a → ∀ verb ∈ a.symbol.template.methods.names, verb ∈ verbs) :
    ResourceProvided symbols ⟨r, above⟩ r' := by
  obtain ⟨applied, own, resolved, ⟨happlied, hbegun, hresolved⟩, -, hrun⟩ := resource_eq_ok.mp h
  obtain ⟨normal, hnormal, hrun⟩ := bind_eq_ok.mp hrun
  cases pure_eq_ok.mp hrun
  have hadded' : ∀ verb ∈ addedVerbs applied, verb ∈ verbs := by
    cases applied with
    | none => exact List.forall_mem_nil _
    | some a => exact hadded a ((hasType_iff happlied a).mpr rfl)
  have hbegun : IsBegun r own applied := isBegun_of_begun hbegun
  -- the tables match twice: once when methods are resolved, once when they are normalized
  have hall := matches_of_methods hresolved
  have hall' := Table.matches_of_mapValuesM hnormal
  refine ⟨hbegun.uri, fun c hc hname => ?_, fun verb => ?_, fun verb m'' hm'' => ?_⟩
  · obtain ⟨s, hs, -⟩ := found_of_resourceType happlied hc hname
    exact ⟨s, hs⟩
  · -- the verbs are the resource's own and those its type adds
    have hadds : verb ∈ addedVerbs applied ↔
        ∃ a, HasType symbols r a ∧ verb ∈ a.symbol.template.methods.names := by
      simp only [hasType_iff happlied]
      cases applied <;> simp [addedVerbs]
    change verb ∈ normal.names ↔ _
    rw [hall'.names, hall.names, mem_names_of_begun hbegun, hadds]
  · obtain ⟨m', hm', hnormal⟩ := hall'.of_get? hm''
    obtain ⟨m, hm, hresolved⟩ := hall.of_get? hm'
    exact methodProvided_of_begun hbegun happlied hverbs hadded' hm hresolved hnormal

/-- What is below a resource makes no difference to what applies to it. -/
theorem ResourceProvided.of_alone {l l' : Resource.Located}
    (h : ResourceProvided symbols (alone l) (alone l').resource) :
    ResourceProvided symbols l l'.resource :=
  ⟨h.uri, h.typeFound, h.methods, fun verb m hm =>
    have h := h.provided verb m hm
    ⟨h.named, h.resourceTraits, h.ownTraits, h.typeTraits, h.templateTraits, h.templates⟩⟩

end Resources

/-! ## The tree -/

section Tree

variable {symbols : Symbols}

/-- Whether the methods of every resource type that can be named stand under verbs. -/
def TypesAreByVerb (symbols : Symbols) : Prop :=
  ∀ name s, symbols.resourceType none name = .ok s → ∀ verb ∈ s.template.methods.names, verb ∈ verbs

/-- Whether a resource of the result stands where one of the document does, with what every
template calls for. -/
def LocatedProvided (symbols : Symbols) (l l' : Resource.Located) : Prop :=
  l'.above = l.above ∧ ResourceProvided symbols l l'.resource

theorem locatedProvided_of_resolvedTo (hadded : TypesAreByVerb symbols) {l l' : Resource.Located}
    (hverbs : Method.TableIsByVerb l.resource.methods) (h : ResolvedTo symbols l l') :
    LocatedProvided symbols l l' :=
  have halone : ResourceProvided symbols (alone l) (alone l').resource :=
    resource_provided h.2 hverbs fun a ⟨c, _, _, hs, _⟩ => hadded c.name a.symbol hs
  ⟨h.1, halone.of_alone⟩

end Tree

/-- **Nothing mandatory that an applied template declares is missing.** If a document whose methods
stand under verbs is resolved, the resources of the result are those of the document, and every
method of them has every entry that a template calls for which applies to it. -/
theorem provided_of_resolve {a a' : Api} (hverbs : a.MethodsAreVerbs) (h : a.resolve = .ok a') :
    List.Forall₂ (LocatedProvided (Symbols.ofApi a)) a.located a'.located := by
  have hadded : TypesAreByVerb (Symbols.ofApi a) := by
    intro name s hs
    have hlookup : (Symbols.ofApi a).lookup .resourceType none name = .ok s := hs
    exact hverbs.resourceTypes s.template (Symbols.declares_of_lookup hlookup)
  have hlocated : ∀ l ∈ a.located, Method.TableIsByVerb l.resource.methods :=
    fun l hl => hverbs.resources _ (Resource.within_of_mem_walkAll _ _ _ hl)
  exact ((List.forall₂_and_left _ _).mpr ⟨hlocated, resolvedTo_of_resolve h⟩).imp
    fun _ _ hl => locatedProvided_of_resolvedTo hadded hl.1 hl.2

/-- A trait that calls for a header named after the verb. -/
def traced : Trait :=
  { method := { Method.named "traced" with
      headers := [("X-<<methodName>>", Parameter.named "X-<<methodName>>")] }
    usage := none }

/-- A resource type with a template for a method, and one for a method that a resource may have. -/
def listed : ResourceType :=
  { (default : ResourceType) with
    traits := [Choice.applied "traced" []]
    methods := [("post", { Method.named "POST" with
      responses := [("201", Response.ofCode "201")] })]
    optionalMethods := [("get", { Method.named "GET" with
      queryParameters := [("<<key>>", Parameter.named "<<key>>"),
        ("page?", Parameter.named "page?")] })] }

/-- The resource of `catalogue`. -/
def books : Resource :=
  { (default : Resource) with
    uri := "/books"
    type := some (Choice.applied "lib.listed" [("key", .str "isbn")])
    methods := [("get", Method.named "GET")] }

/-- The library that declares `listed` and `traced`. -/
def templates : Library :=
  { (default : Library) with
    declared := { (default : Declarations) with
      resourceTypes := [("listed", listed)], traits := [("traced", traced)] } }

/-- A document with a resource whose type comes from a library. -/
def catalogue : Api :=
  { (default : Api) with libraries := [("lib", templates)], resources := [("/books", books)] }

/-- The resource type that applies to `books`. -/
def booksType : Applied := ⟨⟨listed, some templates, some "lib"⟩, [("key", .str "isbn")]⟩

theorem catalogue_methodsAreVerbs : catalogue.MethodsAreVerbs := by
  constructor
  · intro r h
    simp only [catalogue, Resource.within_cons, Resource.not_within_nil, or_false] at h
    rcases h with rfl | h
    · decide +kernel
    · exact absurd h Resource.not_within_nil
  · rintro t (⟨n, hn⟩ | ⟨own, l, n, hl, hn⟩)
    · cases hn
    · simp only [catalogue, Library.within_cons, Library.not_within_nil, or_false] at hl
      rcases hl with ⟨-, rfl⟩ | hl
      · obtain ⟨-, rfl⟩ := Prod.mk.inj (List.mem_singleton.mp hn)
        decide +kernel
      · exact absurd hl Library.not_within_nil

/-- What the templates of `catalogue` call for is there: in the method that `books` declares and in
the one that it gets from its type. -/
theorem books_provided : ∃ a' l', catalogue.resolve = .ok a' ∧ a'.located = [l'] ∧
    (∃ get, l'.resource.methods.get? "get" = some get ∧
      "isbn" ∈ get.queryParameters.names ∧ "X-get" ∈ get.headers.names) ∧
    ∃ post, l'.resource.methods.get? "post" = some post ∧ "201" ∈ post.responses.names := by
  obtain ⟨a', ha'⟩ : ∃ a', catalogue.resolve = .ok a' := exists_of_isOk (by decide +kernel)
  have hall := provided_of_resolve catalogue_methodsAreVerbs ha'
  obtain ⟨l', rest, ⟨-, hprovided⟩, hrest, hlocated⟩ := List.forall₂_cons_left_iff.mp hall
  obtain rfl := List.forall₂_nil_left_iff.mp hrest
  have htype : HasType (Symbols.ofApi catalogue) books booksType := ⟨_, rfl, by decide, by rfl, rfl⟩
  have hmethod : ∀ verb, l'.resource.methods.has verb = true → ∃ m,
      l'.resource.methods.get? verb = some m ∧
        MethodProvided (Symbols.ofApi catalogue) ⟨books, []⟩ verb m := by
    intro verb h
    obtain ⟨m, hm⟩ := Table.has_iff_exists.mp h
    exact ⟨m, hm, hprovided.provided verb m hm⟩
  -- `get` is the resource's own, and `post` comes with the type
  obtain ⟨get, hget, hgetProvided⟩ := hmethod "get" (Table.has_iff_mem_names.mpr
    ((hprovided.methods "get").mpr (.inl (by decide))))
  obtain ⟨post, hpost, hpostProvided⟩ := hmethod "post" (Table.has_iff_mem_names.mpr
    ((hprovided.methods "post").mpr (.inr ⟨booksType, htype, by decide⟩)))
  refine ⟨a', l', ha', hlocated, ⟨get, hget, ?_, ?_⟩, post, hpost, ?_⟩
  · have hprovides := hgetProvided.templates booksType htype _ (.inr ⟨by decide, rfl⟩)
    rw [Dictionary.ofMethod, hgetProvided.named] at hprovides
    exact hprovides.queryParameters.mem (List.mem_cons_self ..) (by decide +kernel)
  · obtain ⟨c', hc', s, hs, hprovides⟩ :=
      hgetProvided.typeTraits booksType htype _ (List.mem_singleton_self _)
    obtain rfl := Except.ok.inj hc'
    obtain rfl := Except.ok.inj hs
    rw [Dictionary.ofMethod, hgetProvided.named] at hprovides
    exact hprovides.headers.mem (List.mem_singleton_self _) (by decide +kernel)
  · have hprovides := hpostProvided.templates booksType htype _ (.inl rfl)
    rw [Dictionary.ofMethod, hpostProvided.named] at hprovides
    exact hprovides.responses.mem (List.mem_singleton_self _) (by decide +kernel)

end Resolution
end Raml
