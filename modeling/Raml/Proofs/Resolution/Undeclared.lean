import Raml.Proofs.Resolution.Traits

/-!
# Optional templates of verbs that are not declared

An optional template of a resource type is for the methods that a resource declares itself. It adds
no verb (`withMethodsOf_eq` tells all those that a type adds), and for a verb that the resource does
not declare it is as good as absent: whatever it holds, whatever traits it names and even if nothing
declares them, the resource comes out the same and so does the error when there is one.

Two tables of symbols are compared for that, which agree on all but optional templates that do not
count (`Symbols.AgreeOn`). What counts is told by the name of the type and the verb. The comparison
goes down to the single method, where the only thing that a method takes from its type is the list
`templatesFor`, and back up to the tree (`optionals_stay_out`).
-/

namespace Raml

open Template (Dictionary)

/-! ## The verbs that a type adds -/

/-- The verbs for which a resource type has methods, beside those that are declared. -/
def ResourceType.verbsBeside (t : ResourceType) (declared : List String) : List String :=
  (t.methods.names.filter fun verb => verb ∉ declared).eraseDups

namespace Resolution

/-- A type adds an empty method for each verb that is not there, in its own order. -/
theorem withMethodsOf_eq (ms : Table Method) (t : ResourceType) :
    withMethodsOf ms t = ms ++ (t.verbsBeside ms.names).map fun verb =>
      (verb, Method.named (Text.Unicode.toUpper verb)) := by
  rw [withMethodsOf, ResourceType.verbsBeside]
  induction t.methods.names generalizing ms with
  | nil => exact (List.append_nil ms).symm
  | cons n names ih =>
    rw [List.foldl_cons, ih]
    split
    · rename_i hhas
      have hmem : n ∈ ms.names := Table.has_iff_mem_names.mp hhas
      rw [List.filter_cons_of_neg (by simpa using hmem)]
    · rename_i hhas
      have hnew : n ∉ ms.names := fun hmem => hhas (Table.has_iff_mem_names.mpr hmem)
      -- the verb is there from now on, so it is erased from what follows
      have hset : (ms.set n (Method.named (Text.Unicode.toUpper n))).names = ms.names ++ [n] := by
        rw [Table.names_set, if_neg hhas]
      rw [hset, Table.eraseDups_missing_cons hnew, List.map_cons,
        Table.set_of_not_has (Bool.not_eq_true _ ▸ hhas), List.append_assoc]
      rfl

/-- The verbs of a resource once its type has added to them. -/
def verbsWith (r : Resource) : Option Applied → List String
  | none => r.methods.names
  | some a => r.methods.names ++ a.symbol.template.verbsBeside r.methods.names

theorem names_methodsOf (r : Resource) (applied : Option Applied) :
    (methodsOf r applied).names = verbsWith r applied := by
  cases applied with
  | none => rfl
  | some a =>
    rw [methodsOf, withMethodsOf_eq, verbsWith, Table.names, List.map_append, List.map_map]
    exact congrArg _ (List.map_id _)

end Resolution

/-! ## Types that agree where it counts -/

/-- Whether two resource types differ at most in optional templates for verbs that do not count. -/
structure ResourceType.AgreeOn (counts : String → Prop) (t u : ResourceType) : Prop where
  others : u = { t with optionalMethods := u.optionalMethods }
  optionals : ∀ verb, counts verb → u.optionalMethods.get? verb = t.optionalMethods.get? verb

/-- Whether two symbols are of such types and are applied in the same circumstances. The libraries
that declare them need not be equal, for each of them holds its own type. -/
structure Symbol.AgreeOn (counts : String → Prop) (s t : Symbol ResourceType) : Prop where
  template : s.template.AgreeOn counts t.template
  aliasName : t.aliasName = s.aliasName
  application : t.application = s.application

/-- Whether two tables of symbols differ at most in optional templates that do not count, by the
name of the resource type and the verb. -/
structure Symbols.AgreeOn (counts : String → String → Prop) (s t : Symbols) : Prop where
  resourceTypes : ∀ name, Option.Rel (Symbol.AgreeOn (counts name))
    (s.resourceTypes.get? name) (t.resourceTypes.get? name)
  traits : t.traits = s.traits
  securitySchemes : t.securitySchemes = s.securitySchemes

theorem Symbols.AgreeOn.mono {counts counts' : String → String → Prop} {s t : Symbols}
    (h : s.AgreeOn counts t) (hcounts : ∀ name verb, counts' name verb → counts name verb) :
    s.AgreeOn counts' t := by
  refine ⟨fun name => ?_, h.traits, h.securitySchemes⟩
  have hfound := h.resourceTypes name
  generalize s.resourceTypes.get? name = x at hfound
  generalize t.resourceTypes.get? name = y at hfound
  cases hfound with
  | none => exact .none
  | some hxy =>
    refine .some ⟨⟨hxy.template.others, fun verb hverb => ?_⟩, hxy.aliasName, hxy.application⟩
    exact hxy.template.optionals verb (hcounts name verb hverb)

/-- Whether a resource names a resource type and declares a method for a verb. -/
def Resource.Declares (r : Resource) (name verb : String) : Prop :=
  (∃ c, r.type = some c ∧ c.name = name) ∧ verb ∈ r.methods.names

/-- Whether one of several resources does so. -/
def Resource.DeclaredIn (ls : List Resource.Located) (name verb : String) : Prop :=
  ∃ l ∈ ls, l.resource.Declares name verb

/-- Whether the methods of a resource carry their verbs as names. -/
def Resource.IsNamed (r : Resource) : Prop := ∀ e ∈ r.methods, e.2.verb = e.1

namespace Resolution

/-- Whether two resource types that are applied agree, and have the same values. -/
structure Applied.AgreeOn (counts : String → Prop) (x y : Applied) : Prop where
  symbol : x.symbol.AgreeOn counts y.symbol
  parameters : y.parameters = x.parameters

section Agreeing

variable {symbols symbols' : Symbols} {counts : String → Prop} {x y : Option Applied}

/-- Resource types that agree where it counts have the same templates for a method. -/
theorem templatesFor_agreeOn {t u : ResourceType} (h : t.AgreeOn counts u) {m : Method}
    {isDeclared : Bool} (hm : isDeclared = true → counts m.verb) :
    templatesFor u m isDeclared = templatesFor t m isDeclared := by
  have hmethods : u.methods = t.methods := by rw [h.others]
  rw [templatesFor, templatesFor, hmethods]
  cases isDeclared with
  | false => rfl
  | true => rw [h.optionals m.verb (hm rfl)]

theorem checkSecurity_congr (h : symbols'.securitySchemes = symbols.securitySchemes)
    (cs : List (Option Choice)) : symbols'.checkSecurity cs = symbols.checkSecurity cs := by
  induction cs with
  | nil => rfl
  | cons c cs ih =>
    cases c with
    | none => rw [Symbols.checkSecurity, Symbols.checkSecurity, ih]
    | some c =>
      simp only [Symbols.checkSecurity, Symbols.securityScheme, h, ih]

/-- What applies a trait does not look at resource types. -/
theorem applyTrait_congr (h : symbols'.traits = symbols.traits) :
    applyTrait symbols' = applyTrait symbols := by
  funext r scope m c
  rw [applyTrait, Symbols.trait, h, applyTrait, Symbols.trait]

/-- Traits are applied alike if all traits are the same. -/
theorem applyTraits_congr (h : symbols'.traits = symbols.traits) {r : Resource.Located}
    {scope : Option String} {m : Method} (cs : List Choice) :
    applyTraits symbols' r scope m cs = applyTraits symbols r scope m cs := by
  rw [applyTraits_eq, applyTraits_eq, applyTrait_congr h]

theorem applyResourceType_agreeOn (htraits : symbols'.traits = symbols.traits)
    {r : Resource.Located} {a b : Applied} (h : a.AgreeOn counts b) {m : Method}
    {isDeclared : Bool} (hm : isDeclared = true → counts m.verb) :
    applyResourceType symbols' r b.symbol b.parameters isDeclared m =
      applyResourceType symbols r a.symbol a.parameters isDeclared m := by
  have htemplates := templatesFor_agreeOn h.symbol.template hm
  have hnamed : b.symbol.template.traits = a.symbol.template.traits := by
    rw [h.symbol.template.others]
  simp only [applyResourceType, applyNamed_eq, htemplates, hnamed, h.parameters,
    h.symbol.aliasName, h.symbol.application, applyTrait_congr htraits]

/-- A method comes out the same if it has the same optional template, where it may have one. -/
theorem method_agreeOn (htraits : symbols'.traits = symbols.traits)
    (hsecured : symbols'.securitySchemes = symbols.securitySchemes)
    (hxy : Option.Rel (Applied.AgreeOn counts) x y) {r : Resource.Located} {m : Method}
    {isDeclared : Bool} (hm : isDeclared = true → counts m.verb) :
    method symbols' r y isDeclared m = method symbols r x isDeclared m := by
  simp only [method, applyTraits_congr htraits, checkSecurity_congr hsecured]
  refine bind_congr_of_ok fun next hnext => ?_
  cases hxy with
  | none => rfl
  | some hab =>
    -- the traits have left the method its name, by which the template is looked up
    have hverb : next.verb = m.verb := verb_congr (applyTraits_name hnext)
    simp only [applyResourceType_agreeOn htraits hab (fun hd => hverb ▸ hm hd)]

theorem methods_agreeOn (htraits : symbols'.traits = symbols.traits)
    (hsecured : symbols'.securitySchemes = symbols.securitySchemes)
    (hxy : Option.Rel (Applied.AgreeOn counts) x y) {r : Resource.Located}
    {declared : List String} {t : Table Method}
    (ht : ∀ e ∈ t, e.1 ∈ declared → counts e.2.verb) :
    methods symbols' r y declared t = methods symbols r x declared t := by
  induction t with
  | nil => rfl
  | cons e t ih =>
    obtain ⟨verb, m⟩ := e
    rw [List.forall_mem_cons] at ht
    have hm : declared.contains verb = true → counts m.verb :=
      fun hd => ht.1 (List.contains_iff_mem.mp hd)
    rw [methods, methods, method_agreeOn htraits hsecured hxy hm, ih ht.2]

/-- Both tables have nothing under the name of the type, or types that agree. -/
theorem resourceType_agreeOn {counts : String → String → Prop} (h : symbols.AgreeOn counts symbols')
    (r : Resource) :
    (∃ e, resourceType symbols r = .error e ∧ resourceType symbols' r = .error e) ∨
    ∃ x y, resourceType symbols r = .ok x ∧ resourceType symbols' r = .ok y ∧
      Option.Rel (Applied.AgreeOn fun verb => ∀ c, r.type = some c → counts c.name verb) x y := by
  cases htype : r.type with
  | none => exact .inr ⟨none, none, by rw [resourceType, htype], by rw [resourceType, htype], .none⟩
  | some c =>
    simp only [resourceType, htype]
    by_cases hempty : c.name.isEmpty = true
    · exact .inr ⟨none, none, if_pos hempty, if_pos hempty, .none⟩
    · rw [if_neg hempty, if_neg hempty, Symbols.resourceType, Symbols.resourceType, Symbols.find,
        Symbols.find, Option.or_none, Option.or_none]
      have hfound := h.resourceTypes c.name
      generalize symbols.resourceTypes.get? c.name = s at hfound
      generalize symbols'.resourceTypes.get? c.name = t at hfound
      cases hfound with
      | none => exact .inl ⟨_, rfl, rfl⟩
      | some hst =>
        refine .inr ⟨_, _, rfl, rfl, .some ⟨⟨⟨hst.template.others, ?_⟩, hst.2, hst.3⟩, rfl⟩⟩
        exact fun verb hcounts => hst.template.optionals verb (hcounts c rfl)

end Agreeing

/-! ## Resources and all below them -/

section Resources

variable {symbols symbols' : Symbols} {above : List String}

theorem begun_agreeOn {counts : String → Prop} {x y : Option Applied}
    (hxy : Option.Rel (Applied.AgreeOn counts) x y) (l : Resource.Located) :
    begun l y = begun l x := by
  cases hxy with
  | none => rfl
  | some hab =>
    have hsame := hab.symbol.template.others
    simp only [begun, applyToResource, hab.parameters, hab.symbol.application]
    rw [hsame]
    rfl

/-- What a method may take from an optional template is under its verb, if its name says so. -/
theorem counts_of_begun {r own : Resource} {applied : Option Applied} (hnamed : r.IsNamed)
    (h : begun ⟨r, above⟩ applied = .ok own) {e : String × Method} (he : e ∈ own.methods)
    (hdeclared : e.1 ∈ r.methods.names) : e.2.verb ∈ r.methods.names := by
  rw [methods_of_begun h] at he
  cases applied with
  | none => rwa [hnamed e he]
  | some a =>
    rw [methodsOf, withMethodsOf_eq] at he
    rcases List.mem_append.mp he with he | he
    · rwa [hnamed e he]
    · -- what the type has added stands under a verb that was not declared
      obtain ⟨verb, hverb, rfl⟩ := List.mem_map.mp he
      rw [ResourceType.verbsBeside, List.mem_eraseDups, List.mem_filter] at hverb
      exact absurd hdeclared (by simpa using hverb.2)

/-- A resource is begun, its methods are resolved, and what it has become is brought into normal
form. -/
theorem resource_eq (r : Resource) : resource symbols above r = (do
    let applied ← resourceType symbols r
    let own ← begun ⟨r, above⟩ applied
    let ms ← methods symbols ⟨own, above⟩ applied r.methods.names own.methods
    symbols.checkSecurity own.securedBy
    Resource.normalize { own with methods := ms }) :=
  bind_congr fun applied => by cases applied <;> rfl

/-- A resource is resolved alike with symbols that agree on the verbs it declares. -/
theorem resource_agreeOn {r : Resource} (hnamed : r.IsNamed)
    (h : symbols.AgreeOn r.Declares symbols') :
    resource symbols' above r = resource symbols above r := by
  rw [resource_eq, resource_eq]
  obtain ⟨e, he, he'⟩ | ⟨x, y, hx, hy, hxy⟩ := resourceType_agreeOn h r
  · rw [he, he']
    rfl
  · rw [bind_of_eq_ok hx, bind_of_eq_ok hy, begun_agreeOn hxy]
    refine bind_congr_of_ok fun own hown => ?_
    rw [methods_agreeOn h.traits h.securitySchemes hxy, checkSecurity_congr h.securitySchemes]
    intro e he hdeclared c hc
    exact ⟨⟨c, hc, rfl⟩, counts_of_begun hnamed hown he hdeclared⟩

mutual

/-- A tree is resolved alike with symbols that agree on the verbs in it. -/
theorem tree_agreeOn : ∀ (r : Resource) (above : List String),
    (∀ l ∈ Resource.walk above r, l.resource.IsNamed) →
    symbols.AgreeOn (Resource.DeclaredIn (Resource.walk above r)) symbols' →
    tree symbols' above r = tree symbols above r
  | ⟨annotations, uri, displayName, description, methods, traits, type, securedBy, uriParameters,
      nested⟩, above, hnamed, h => by
      rw [Resource.walk_eq] at hnamed h
      rw [List.forall_mem_cons] at hnamed
      have hown : resource symbols' above ⟨annotations, uri, displayName, description, methods,
          traits, type, securedBy, uriParameters, []⟩ = resource symbols above _ :=
        resource_agreeOn hnamed.1 (h.mono fun _ _ hd => ⟨_, List.mem_cons_self .., hd⟩)
      have hbelow := trees_agreeOn nested (uri :: above) hnamed.2
        (h.mono fun _ _ ⟨l, hl, hd⟩ => ⟨l, List.mem_cons_of_mem _ hl, hd⟩)
      rw [tree, tree, hown, hbelow]

/-- Trees come out the same if no resource in them declares a verb whose optional template, in the
type that the resource names, is another one. -/
theorem trees_agreeOn : ∀ (rs : List (String × Resource)) (above : List String),
    (∀ l ∈ Resource.walkAll above rs, l.resource.IsNamed) →
    symbols.AgreeOn (Resource.DeclaredIn (Resource.walkAll above rs)) symbols' →
    trees symbols' above rs = trees symbols above rs
  | [], _, _, _ => by rw [trees, trees]
  | (key, r) :: rest, above, hnamed, h => by
      rw [Resource.walkAll] at hnamed h
      rw [List.forall_mem_append] at hnamed
      have hfirst := tree_agreeOn r above hnamed.1
        (h.mono fun _ _ ⟨l, hl, hd⟩ => ⟨l, List.mem_append_left _ hl, hd⟩)
      have hothers := trees_agreeOn rest above hnamed.2
        (h.mono fun _ _ ⟨l, hl, hd⟩ => ⟨l, List.mem_append_right _ hl, hd⟩)
      rw [trees, trees, hfirst, hothers]

end

/-- The verbs of a resolved resource are those that it declares and those that its type adds. -/
theorem names_of_resolvedTo {l l' : Resource.Located} (h : ResolvedTo symbols l l') :
    ∃ applied, resourceType symbols l.resource = .ok applied ∧
      l'.resource.methods.names = verbsWith l.resource applied := by
  obtain ⟨applied, own, ms, harranged, -, hnormal⟩ := resource_eq_ok.mp h.2
  obtain ⟨normal, hmethods, hnormal⟩ := bind_eq_ok.mp hnormal
  refine ⟨applied, harranged.type, ?_⟩
  have htable : l'.resource.methods = normal :=
    (congrArg Resource.methods (pure_eq_ok.mp hnormal)).symm
  rw [htable, (Table.matches_of_mapValuesM hmethods).names,
    (matches_of_methods harranged.methods).names, methods_of_begun harranged.begun,
    names_methodsOf]
  rfl

end Resources

/-- **Optional templates are for what is declared.** Each resource of a tree that is resolved has
the verbs that it declares, in their order, and after them those for which its type has methods and
which it does not declare, in the order of the type. Where two tables of symbols differ at most in
optional templates of verbs that a resource does not declare in the type that it names, the resource
is resolved to the same one in both, or fails with the same error, if its methods carry their verbs
as names; and so is a tree, if this holds of all resources in it. -/
theorem optionals_stay_out (symbols : Symbols) (above : List String) (r : Resource) :
    (∀ r', tree symbols above r = .ok r' → List.Forall₂ (fun l l' =>
      ∃ applied, resourceType symbols l.resource = .ok applied ∧
        l'.resource.methods.names = verbsWith l.resource applied)
      (Resource.walk above r) (Resource.walk above r')) ∧
    ∀ symbols',
      (r.IsNamed → symbols.AgreeOn r.Declares symbols' →
        resource symbols' above r = resource symbols above r) ∧
      ((∀ l ∈ Resource.walk above r, l.resource.IsNamed) →
        symbols.AgreeOn (Resource.DeclaredIn (Resource.walk above r)) symbols' →
        tree symbols' above r = tree symbols above r) := by
  refine ⟨fun r' h => ?_, fun symbols' => ⟨resource_agreeOn, tree_agreeOn r above⟩⟩
  exact (tree_resolvedTo r above r' h).imp fun _ _ => names_of_resolvedTo

/-- A resource type with optional templates: one for a verb that it also has a method for, and one
that names a trait which nothing declares. -/
def lendable (optionals : Table Method) : ResourceType :=
  { (default : ResourceType) with
    methods := [("post", Method.named "POST"), ("get", Method.named "GET")]
    optionalMethods := optionals }

/-- The templates that do not count for a resource with the method `get` alone. -/
def lendingOptionals : Table Method := [
  ("post", { Method.named "POST" with description := some "Lends <<resourcePathName>>" }),
  ("put", { Method.named "PUT" with traits := [Choice.applied "unknown" []] })]

/-- A table of symbols with nothing but that resource type. -/
def lending (optionals : Table Method) : Symbols :=
  ⟨[("lendable", ⟨lendable optionals, none, none⟩)], [], []⟩

/-- A resource of that type with a method of its own, above another one like it. -/
def lentBooks : Resource :=
  { (default : Resource) with
    uri := "/books"
    methods := [("get", Method.named "GET")]
    type := some (Choice.applied "lendable" [])
    nested := [("/one", { (default : Resource) with
      uri := "/one"
      methods := [("get", Method.named "GET")]
      type := some (Choice.applied "lendable" []) })] }

/-- The only verb that counts is the one that both resources declare. -/
theorem lending_agreeOn : (lending lendingOptionals).AgreeOn
    (Resource.DeclaredIn (Resource.walk [] lentBooks)) (lending []) := by
  refine ⟨fun name => ?_, rfl, rfl⟩
  simp only [lending, Table.get?]
  split
  · refine .some ⟨⟨rfl, fun verb hverb => ?_⟩, rfl, rfl⟩
    obtain ⟨l, hl, -, hverb⟩ := hverb
    have hall : ∀ l ∈ Resource.walk [] lentBooks, l.resource.methods.names = ["get"] := by decide
    rw [hall l hl, List.mem_singleton] at hverb
    subst hverb
    rfl
  · exact .none

theorem lentBooks_isNamed : ∀ l ∈ Resource.walk [] lentBooks, l.resource.IsNamed := by
  have hall : ∀ l ∈ Resource.walk [] lentBooks, ∀ e ∈ l.resource.methods, e.2.verb = e.1 := by
    decide +kernel
  exact hall

/-- The trait is not missed where the optional template is not for a declared verb, and the
template that goes with the method of the type is not merged into it. -/
theorem lentBooks_optionals_stay_out :
    (∀ l ∈ Resource.walk [] lentBooks, l.resource.IsNamed) ∧
    (lending lendingOptionals).AgreeOn (Resource.DeclaredIn (Resource.walk [] lentBooks))
      (lending []) ∧
    ∃ r', tree (lending lendingOptionals) [] lentBooks = .ok r' ∧
      tree (lending []) [] lentBooks = .ok r' ∧
      (Resource.walk [] r').map (fun l => l.resource.methods.names) =
        [["get", "post"], ["get", "post"]] := by
  obtain ⟨r', hr', hverbs⟩ : ∃ r', tree (lending lendingOptionals) [] lentBooks = .ok r' ∧
      (Resource.walk [] r').map (fun l => l.resource.methods.names) =
        [["get", "post"], ["get", "post"]] :=
    toOption_map_eq_some.mp (by decide +kernel)
  obtain ⟨-, hsame⟩ := optionals_stay_out (lending lendingOptionals) [] lentBooks
  have hother := (hsame (lending [])).2 lentBooks_isNamed lending_agreeOn
  exact ⟨lentBooks_isNamed, lending_agreeOn, r', hr', hother.trans hr', hverbs⟩

end Resolution
end Raml
