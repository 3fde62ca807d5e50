import Raml.Proofs.Resolution.Secured

/-!
# Traits that are found

A trait is looked up when it is applied, and it is applied to a method. So the traits that a method
names are found, and those that a resource names are found once the resource has a method, its own
or one of its type (`traits_found_of_resolve`). A resource that only groups others has none, and
nothing looks up the traits that it names (`grouping_not_found`).
-/

namespace Raml

/-- Whether each reference of a list names a trait. -/
def Symbols.FindsTraits (s : Symbols) (cs : List Choice) : Prop :=
  ∀ c ∈ cs, ∃ found, s.lookup .trait none c.name = .ok found

namespace Resolution

/-- Whether the traits that a resource names are found: those of its methods, and its own if it has
a method to apply them to, or its type has one. -/
structure TraitsFound (symbols : Symbols) (r : Resource) : Prop where
  ofMethods : ∀ e ∈ r.methods, symbols.FindsTraits e.2.traits
  own : r.methods ≠ [] → symbols.FindsTraits r.traits
  byType : ∀ a, HasType symbols r a → a.symbol.template.methods ≠ [] →
    symbols.FindsTraits r.traits

section Found

variable {symbols : Symbols} {l l' : Resource.Located} {m m' : Method} {own : Resource}
  {applied : Option Applied}

theorem findsTraits_append {cs cs' : List Choice} : symbols.FindsTraits (cs ++ cs') ↔
    symbols.FindsTraits cs ∧ symbols.FindsTraits cs' :=
  List.forall_mem_append

/-- Steps that could be told have found the traits of the resource and of the method. -/
theorem findsTraits_of_steps {isDeclared : Bool} {ss : List Step}
    (h : steps symbols l applied isDeclared m = .ok ss) :
    symbols.FindsTraits (l.resource.traits ++ m.traits) := by
  obtain ⟨named, hnamed, -⟩ := bind_eq_ok.mp h
  intro c hc
  obtain ⟨s, -, hstep⟩ := exists_of_mem_left (mapM_eq_ok.mp hnamed) hc
  obtain ⟨found, hfound, -⟩ := bind_eq_ok.mp hstep
  exact ⟨found, hfound⟩

/-- A type only adds methods, after those that the resource has. -/
theorem methods_prefix_withMethodsOf (ms : Table Method) (t : ResourceType) :
    ms <+: withMethodsOf ms t := by
  rw [withMethodsOf]
  induction t.methods.names generalizing ms with
  | nil => exact List.prefix_refl ms
  | cons n names ih =>
    rw [List.foldl_cons]
    refine List.IsPrefix.trans ?_ (ih _)
    split
    · exact List.prefix_refl ms
    · rename_i hhas
      rw [Table.set_of_not_has (Bool.not_eq_true _ ▸ hhas)]
      exact List.prefix_append _ _

/-- The methods of a resource and those that its resource type adds. -/
def methodsOf (r : Resource) : Option Applied → Table Method
  | none => r.methods
  | some a => withMethodsOf r.methods a.symbol.template

theorem methods_of_begun (h : begun l applied = .ok own) :
    own.methods = methodsOf l.resource applied := by
  cases applied with
  | none => rw [← Except.ok.inj h, methodsOf]
  | some a =>
    obtain ⟨merged, hmerged, h⟩ := bind_eq_ok.mp h
    rw [← pure_eq_ok.mp h, (Merge.resource_eq_ok.mp hmerged).others, methodsOf]

theorem methods_prefix_of_begun (h : begun l applied = .ok own) :
    l.resource.methods <+: own.methods := by
  rw [methods_of_begun h]
  cases applied with
  | none => exact List.prefix_refl _
  | some a => exact methods_prefix_withMethodsOf _ _

/-- A resource whose type has methods begins with methods. -/
theorem methods_ne_nil_of_begun {a : Applied} (h : begun l (some a) = .ok own)
    (hmethods : a.symbol.template.methods ≠ []) : own.methods ≠ [] := by
  obtain ⟨⟨verb, m⟩, hm⟩ := List.exists_mem_of_ne_nil _ hmethods
  have hverb : verb ∈ own.methods.names :=
    (mem_names_of_begun (isBegun_of_begun h) verb).mpr (.inr (List.mem_map_of_mem hm))
  rintro hnil
  rw [hnil] at hverb
  cases hverb

theorem traits_normalize (h : m.normalize = .ok m') : m'.traits = m.traits := by
  obtain ⟨bodies, -, h⟩ := bind_eq_ok.mp h
  obtain ⟨responses, -, h⟩ := bind_eq_ok.mp h
  rw [← pure_eq_ok.mp h]

/-- What a resource is to begin with and what it is resolved to have the same methods, and each of
them has had all its traits found. -/
theorem methods_found (h : ResolvedTo symbols l l') : ∃ applied own,
    resourceType symbols l.resource = .ok applied ∧ begun (alone l) applied = .ok own ∧
      l'.resource.traits = l.resource.traits ∧
      Table.Matches (fun _ m m' => m'.traits = m.traits ∧
        symbols.FindsTraits (l.resource.traits ++ m.traits)) own.methods l'.resource.methods := by
  obtain ⟨applied, own, ms, harranged, -, hnormal⟩ := resource_eq_ok.mp h.2
  obtain ⟨normal, hmethods, hnormal⟩ := bind_eq_ok.mp hnormal
  have hresult := pure_eq_ok.mp hnormal
  have htraits : own.traits = l.resource.traits := (isBegun_of_begun harranged.begun).traits
  have htraits' : l'.resource.traits = own.traits := (congrArg Resource.traits hresult).symm
  have htable : l'.resource.methods = normal := (congrArg Resource.methods hresult).symm
  refine ⟨applied, own, harranged.type, harranged.begun, htraits'.trans htraits, ?_⟩
  rw [htable]
  refine ((matches_of_methods harranged.methods).trans
    (Table.matches_of_mapValuesM hmethods)).mono ?_
  rintro verb m m'' ⟨m', hm', hnormal⟩
  obtain ⟨ss, hss, hrun, -⟩ := method_eq_ok.mp hm'
  exact ⟨(traits_normalize hnormal).trans (foldlM_apply_traits hrun),
    htraits ▸ findsTraits_of_steps hss⟩

theorem traitsFound_of_resolvedTo (h : ResolvedTo symbols l l') :
    TraitsFound symbols l.resource ∧ (∀ e ∈ l'.resource.methods, symbols.FindsTraits e.2.traits) ∧
      (l'.resource.methods ≠ [] → symbols.FindsTraits l'.resource.traits) := by
  obtain ⟨applied, own, htype, hbegun, htraits, hmethods⟩ := methods_found h
  have hall : ∀ e ∈ own.methods, symbols.FindsTraits (l.resource.traits ++ e.2.traits) := by
    intro e he
    obtain ⟨e', -, -, -, hfound⟩ := exists_of_mem_left hmethods he
    exact hfound
  have hfirst : (alone l).resource.methods <+: own.methods := methods_prefix_of_begun hbegun
  -- one method is enough for the traits of the resource to be looked up
  have hown : own.methods ≠ [] → symbols.FindsTraits l.resource.traits := by
    intro hne
    obtain ⟨e, he⟩ := List.exists_mem_of_ne_nil _ hne
    exact (findsTraits_append.mp (hall e he)).1
  refine ⟨⟨fun e he => ?_, fun hne => ?_, fun a ha hne => ?_⟩, fun e' he' => ?_, fun hne => ?_⟩
  · exact (findsTraits_append.mp (hall e (hfirst.subset he))).2
  · exact hown fun hnil => hne (List.prefix_nil.mp (hnil ▸ hfirst))
  · obtain rfl := (hasType_iff htype a).mp ha
    exact hown (methods_ne_nil_of_begun hbegun hne)
  · obtain ⟨m, -, hsame, hfound⟩ := hmethods.of_mem he'
    exact hsame ▸ (findsTraits_append.mp hfound).2
  · rw [htraits]
    refine hown fun hnil => hne ?_
    rw [hnil] at hmethods
    exact List.forall₂_nil_left_iff.mp hmethods

end Found

/-- Traits that are found before resolution are found after it. -/
theorem findsTraits_of_resolve {a a' : Api} (h : a.resolve = .ok a') {cs : List Choice}
    (hall : (Symbols.ofApi a).FindsTraits cs) : (Symbols.ofApi a').FindsTraits cs := by
  intro c hc
  obtain ⟨found, hfound⟩ := hall c hc
  exact lookup_of_resolve h hfound

/-- **Every trait that is named where there is a method exists.** If a document is resolved, the
traits that its methods name are declared, at whatever depth, and so are those of each resource that
has a method or whose type has one. The same can be said of the resolved document, where a resource
has the methods of its type. -/
theorem traits_found_of_resolve {a a' : Api} (h : a.resolve = .ok a') :
    (∀ l ∈ a.located, TraitsFound (Symbols.ofApi a) l.resource) ∧
    ∀ l' ∈ a'.located,
      (∀ e ∈ l'.resource.methods, (Symbols.ofApi a').FindsTraits e.2.traits) ∧
      (l'.resource.methods ≠ [] → (Symbols.ofApi a').FindsTraits l'.resource.traits) := by
  have hall := resolvedTo_of_resolve h
  constructor
  · intro l hl
    obtain ⟨l', -, hl'⟩ := exists_of_mem_left hall hl
    exact (traitsFound_of_resolvedTo hl').1
  · intro l' hl'
    obtain ⟨l, -, hl⟩ := exists_of_mem_right hall hl'
    obtain ⟨-, hmethods, hown⟩ := traitsFound_of_resolvedTo hl
    exact ⟨fun e he => findsTraits_of_resolve h (hmethods e he),
      fun hne => findsTraits_of_resolve h (hown hne)⟩

/-- A resource type with a template for a method. -/
def readable : ResourceType :=
  { (default : ResourceType) with methods := [("get", Method.named "GET")] }

/-- A resource of that type that names a trait and has no method of its own. -/
def stock : Resource :=
  { (default : Resource) with
    uri := "/stock"
    traits := [Choice.applied "paged" []]
    type := some (Choice.applied "readable" []) }

/-- A document with that resource below one that only groups it. -/
def shelves : Api :=
  { (default : Api) with
    declared := { (default : Declarations) with
      resourceTypes := [("readable", readable)], traits := [("paged", default)] }
    resources := [("/shelves", { (default : Resource) with
      uri := "/shelves", nested := [("/stock", stock)] })] }

/-- The trait of the inner resource is looked up for the method that comes with its type. -/
theorem shelves_traits_found : (∃ a', shelves.resolve = .ok a') ∧ stock.methods = [] ∧
    ⟨stock, ["/shelves"]⟩ ∈ shelves.located ∧ (Symbols.ofApi shelves).FindsTraits stock.traits := by
  obtain ⟨a', ha'⟩ : ∃ a', shelves.resolve = .ok a' := exists_of_isOk (by decide +kernel)
  have hlocated : ⟨stock, ["/shelves"]⟩ ∈ shelves.located :=
    List.mem_cons_of_mem _ (List.mem_singleton_self _)
  have hfound := (traits_found_of_resolve ha').1 _ hlocated
  have htype : HasType (Symbols.ofApi shelves) stock ⟨⟨readable, none, none⟩, []⟩ :=
    ⟨_, rfl, by decide, by rfl, rfl⟩
  exact ⟨⟨a', ha'⟩, rfl, hlocated, hfound.byType _ htype (List.cons_ne_nil _ _)⟩

/-- A resource that names a trait which nothing declares, and has no methods. -/
def grouping : Api :=
  { (default : Api) with
    resources := [("/books", { (default : Resource) with
      uri := "/books", traits := [Choice.applied "paged" []] })] }

/-- Nothing looks up the traits of a resource without methods, so the document is resolved although
no trait has the name. -/
theorem grouping_not_found : (∃ a', grouping.resolve = .ok a') ∧
    ∃ l ∈ grouping.located, ∃ c ∈ l.resource.traits,
      (Symbols.ofApi grouping).lookup .trait none c.name = .error (.unresolved .trait "paged") := by
  refine ⟨exists_of_isOk (by decide +kernel), _, List.mem_singleton_self _, _,
    List.mem_singleton_self _, by rfl⟩

end Resolution
end Raml
