import Raml.Proofs.Merge.Captured
import Raml.Proofs.Resolution.Secured
import Raml.Proofs.Resolution.Undeclared

/-!
# A document under libraries that may declare one more type

Take two documents that differ in one thing: whether their libraries declare a type of a certain
name. Every name of a template means the same in both, so the same templates are applied to each
resource with the same values, and step by step what they are merged into stays alike
(`completes_alike`): whatever is no place for a type is equal, and so is a type unless it mentions
the name once it is filled in. If it does, the library of its template captures the name, also
where it came from a value that the root document gave.
-/

namespace Raml

open Template (Dictionary)

/-! ## Documents -/

mutual

/-- Libraries with the same templates and the same types, except perhaps one of the given name;
so are the libraries that they use. -/
inductive Library.AgreeBut (N : String) : Library → Library → Prop where
  | intro {l k : Library} :
      (∀ kind, k.declared.templates kind = l.declared.templates kind) →
      (∀ n, n ≠ N → (n ∈ k.declared.types.names ↔ n ∈ l.declared.types.names)) →
      AllAgreeBut N l.libraries k.libraries → AgreeBut N l k

/-- Libraries that agree one by one, under the same aliases. -/
inductive Library.AllAgreeBut (N : String) :
    List (String × Library) → List (String × Library) → Prop where
  | nil : AllAgreeBut N [] []
  | cons {own : String} {l k : Library} {ls ks : List (String × Library)} :
      AgreeBut N l k → AllAgreeBut N ls ks → AllAgreeBut N ((own, l) :: ls) ((own, k) :: ks)

end

/-- Documents with the same resources and templates, whose libraries agree except perhaps on one
type. -/
structure Api.AgreeBut (N : String) (a b : Api) : Prop where
  templates : ∀ kind, b.declared.templates kind = a.declared.templates kind
  libraries : Library.AllAgreeBut N a.libraries b.libraries
  resources : b.resources = a.resources

namespace Library

variable {N : String}

theorem matches_of_allAgreeBut : ∀ {ls ks : List (String × Library)}, AllAgreeBut N ls ks →
    Table.Matches (fun _ => AgreeBut N) ls ks
  | [], _, .nil => .nil
  | _ :: _, _, .cons h hrest => .cons ⟨rfl, h⟩ (matches_of_allAgreeBut hrest)

/-- Libraries that agree but for one name mirror each other. -/
theorem isMirror_agreeBut (N : String) : IsMirror (AgreeBut N) where
  templates := fun ⟨htemplates, _, _⟩ => htemplates
  libraries := fun ⟨_, _, hlibraries⟩ => matches_of_allAgreeBut hlibraries

end Library

theorem Api.AgreeBut.mirrored {N : String} {a b : Api} (h : a.AgreeBut N b) :
    Symbols.ApiMirrored (Library.AgreeBut N) a b :=
  ⟨h.templates, Library.matches_of_allAgreeBut h.libraries⟩

/-! ## Aliases -/

namespace Symbols

variable {kind : SymbolKind} {C : String → Prop}

mutual

theorem alias_of_mem_offers (hdot : ∀ a n, C a → C n → C (a ++ "." ++ n)) :
    ∀ (l : Library) (aliasName own key : String) (s : Symbol kind.Template), C aliasName →
      (∀ own k, Library.Within l.libraries own k → C own) →
      (key, s) ∈ offers kind aliasName own l → ∃ A, s.aliasName = some A ∧ C A
  | ⟨annotations, declared, libraries, location, usage⟩, aliasName, own, key, s, hA, hall, h => by
      rw [offers_eq, List.mem_append] at h
      rcases h with h | h
      · exact ⟨aliasName, aliasName_of_mem_ownOffers h, hA⟩
      · exact alias_of_mem_offersOfAll hdot libraries _ key s (fun n => hdot aliasName n hA) hall h

/-- What holds of every alias in a document and of aliases joined by dots holds of those by which
templates are known. -/
theorem alias_of_mem_offersOfAll (hdot : ∀ a n, C a → C n → C (a ++ "." ++ n)) :
    ∀ (libs : List (String × Library)) (before key : String) (s : Symbol kind.Template),
      (∀ n, C n → C (before ++ n)) → (∀ own k, Library.Within libs own k → C own) →
      (key, s) ∈ offersOfAll kind before libs → ∃ A, s.aliasName = some A ∧ C A
  | [], _, _, _, _, _, h => by cases h
  | (own, l) :: rest, before, key, s, hbefore, hall, h => by
      rw [offersOfAll, List.mem_append] at h
      rcases h with h | h
      · refine alias_of_mem_offers hdot l _ own key s (hbefore own ?_) (fun n k hk => ?_) h
        · exact hall own l (Library.within_cons.mpr (.inl ⟨rfl, rfl⟩))
        · exact hall n k (Library.within_cons.mpr (.inr (.inl hk)))
      · exact alias_of_mem_offersOfAll hdot rest before key s hbefore
          (fun n k hk => hall n k (Library.within_cons.mpr (.inr (.inr hk)))) h

end

/-- Whether no alias of a library in a document holds the brackets of a placeholder. -/
def AliasesArePlain (a : Api) : Prop :=
  ∀ own l, Library.Within a.libraries own l → Template.hasBrackets own = false

/-- A dot between two aliases brings no brackets. -/
theorem hasBrackets_dotted {s t : String} (hs : Template.hasBrackets s = false)
    (ht : Template.hasBrackets t = false) : Template.hasBrackets (s ++ "." ++ t) = false := by
  have hseen : ∀ c, Shape.isSeparator c = false → ¬[c, c] <:+: s.toList → ¬[c, c] <:+: t.toList →
      ¬[c, c] <:+: (s ++ "." ++ t).toList := by
    intro c hc hs ht
    have hdot : ".".toList = ['.'] := rfl
    rw [String.toList_append, String.toList_append, List.append_assoc, hdot, List.singleton_append,
      (Shape.isSeen_pair hc).across (by decide)]
    exact not_or.mpr ⟨hs, ht⟩
  rw [Template.hasBrackets_eq_false_iff] at hs ht ⊢
  exact ⟨hseen '<' (by decide) hs.1 ht.1, hseen '>' (by decide) hs.2 ht.2⟩

/-- No symbol that is found comes under an alias with brackets. -/
theorem hasBrackets_alias {a : Api} (h : AliasesArePlain a) {scope : Option String} {name : String}
    {s : Symbol kind.Template} (hs : (ofApi a).lookup kind scope name = .ok s) :
    ∀ A ∈ s.aliasName, Template.hasBrackets A = false := by
  obtain ⟨key, hkey⟩ := get?_of_find hs
  rw [get?_ofApi_append] at hkey
  rcases List.mem_append.mp (Table.mem_of_get? hkey) with hroot | hlibrary
  · obtain ⟨_, -, heq⟩ := List.mem_map.mp hroot
    cases heq
    exact nofun
  · obtain ⟨A, hA, hplain⟩ : ∃ A, s.aliasName = some A ∧ Template.hasBrackets A = false := by
      refine alias_of_mem_offersOfAll (C := fun A => Template.hasBrackets A = false)
        (fun _ _ => hasBrackets_dotted) a.libraries "" key s (fun n hn => ?_) h hlibrary
      rwa [String.empty_append]
    rw [hA]
    rintro _ ⟨⟩
    exact hplain

end Symbols

/-! ## Templates -/

/-- Whether an application is of the template that a symbol is for: under the alias by which the
library of the template is reached, with the types that this library declares. -/
structure Symbol.IsAppliedAs {α : Type} (s : Symbol α) (app : Application) : Prop where
  aliasName : app.aliasName = s.aliasName
  types : app.types = s.library.elim [] fun l => l.declared.types.names

theorem Symbol.isAppliedAs_application {α : Type} (s : Symbol α) (d : Dictionary) :
    s.IsAppliedAs (s.application d) := by
  rw [application]
  obtain ⟨_, library, _⟩ := s
  cases library <;> exact ⟨rfl, rfl⟩

/-- Two symbols of one template, of libraries that agree except perhaps on one type. Whatever the
values, `One` holds of the ways in which the template is applied in both documents. -/
structure Symbol.AgreeBut {α : Type} (N : String) (One : Application → Application → Prop)
    (s t : Symbol α) : Prop where
  mirrored : s.Mirrored (Library.AgreeBut N) t
  applied : ∀ d, One (s.application d) (t.application d)

namespace Resolution

/-- Whether a resource takes over from what a name means in the library reached under an alias: its
type, a trait that it or one of its methods names, or one that its type or a template of it
names. -/
inductive Applies (symbols : Symbols) (r : Resource) : SymbolKind → Option String → String → Prop
  where
  | type {c : Choice} : r.type = some c → Applies symbols r .resourceType none c.name
  | trait {c : Choice} : c ∈ r.traits → Applies symbols r .trait none c.name
  | methodTrait {verb : String} {m : Method} {c : Choice} : (verb, m) ∈ r.methods → c ∈ m.traits →
      Applies symbols r .trait none c.name
  | typeTrait {x : Applied} {c : Choice} : HasType symbols r x → c ∈ x.symbol.template.traits →
      Applies symbols r .trait x.symbol.aliasName c.name
  | templateTrait {x : Applied} {verb : String} {m : Method} {c : Choice} : HasType symbols r x →
      (verb, m) ∈ x.symbol.template.methods ++ x.symbol.template.optionalMethods → c ∈ m.traits →
      Applies symbols r .trait x.symbol.aliasName c.name

section Applies

variable {symbols : Symbols} {r : Resource}

/-- The traits that a resource type names for a method, itself or in a template. -/
theorem applies_of_mem_type {x : Applied} (hx : HasType symbols r x) {m : Method}
    {isDeclared : Bool} {c c' : Choice} {d : Dictionary}
    (hc : c ∈ x.symbol.template.traits ++
      (templatesFor x.symbol.template m isDeclared).flatMap Method.traits)
    (hc' : c.instantiate d = .ok c') : Applies symbols r .trait x.symbol.aliasName c'.name := by
  -- filling in a choice leaves its name
  have hname : c'.name = c.name := by
    obtain ⟨_, -, hc'⟩ := bind_eq_ok.mp hc'
    rw [← pure_eq_ok.mp hc']
    rfl
  rw [hname]
  rcases List.mem_append.mp hc with hc | hc
  · exact .typeTrait hx hc
  · obtain ⟨t, ht, hc⟩ := List.mem_flatMap.mp hc
    -- both the mandatory and the optional methods of a type belong to it
    have hmem : ∃ verb,
        (verb, t) ∈ x.symbol.template.methods ++ x.symbol.template.optionalMethods := by
      rcases List.mem_append.mp ht with ht | ht
      · exact ⟨_, List.mem_append_left _ (Table.mem_of_get? (Option.mem_toList.mp ht))⟩
      · split at ht
        · exact ⟨_, List.mem_append_right _ (Table.mem_of_get? (Option.mem_toList.mp ht))⟩
        · cases ht
    obtain ⟨verb, hmem⟩ := hmem
    exact .templateTrait hx hmem hc

/-- The traits that a resource and its methods name, those of its type included, which name none. -/
theorem applies_of_begun {l : Resource.Located} {x : Option Applied}
    {own : Resource} (hown : begun l x = .ok own) :
    ∀ e ∈ own.methods, ∀ c ∈ own.traits ++ e.2.traits,
      Applies symbols l.resource .trait none c.name := by
  -- a type brings methods without traits of their own, and leaves those of the resource alone
  obtain ⟨htraits, hmethods⟩ : own.traits = l.resource.traits ∧
      ∀ e ∈ own.methods, e ∈ l.resource.methods ∨ e.2.traits = [] := by
    cases x with
    | none =>
      cases hown
      exact ⟨rfl, fun _ he => .inl he⟩
    | some x =>
      obtain ⟨merged, hmerged, hown⟩ := bind_eq_ok.mp hown
      cases pure_eq_ok.mp hown
      have hothers := (Merge.resource_eq_ok.mp hmerged).others
      have hmethods : merged.methods = l.resource.methods := by rw [hothers]
      refine ⟨by rw [hothers], fun e he => ?_⟩
      rw [hmethods, withMethodsOf_eq, List.mem_append] at he
      refine he.imp_right fun he => ?_
      obtain ⟨verb, -, rfl⟩ := List.mem_map.mp he
      rfl
  intro e he c hc
  rw [htraits, List.mem_append] at hc
  rcases hc with hc | hc
  · exact .trait hc
  · rcases hmethods e he with hmem | hnone
    · exact .methodTrait hmem hc
    · rw [hnone] at hc
      cases hc

end Applies

/-- Whether two applications are those of one template in two documents: what a name means in both
that a resource of the first one takes over from. -/
def ApplyOne (a b : Api) (r : Resource) (app app' : Application) : Prop :=
  ∃ (kind : SymbolKind) (scope : Option String) (name : String) (s t : Symbol kind.Template),
    Applies (Symbols.ofApi a) r kind scope name ∧
      (Symbols.ofApi a).lookup kind scope name = .ok s ∧
      (Symbols.ofApi b).lookup kind scope name = .ok t ∧ s.IsAppliedAs app ∧ t.IsAppliedAs app'

/-- Two resource types that are applied, one and the same with the same values. -/
structure Applied.AgreeBut (N : String) (One : Application → Application → Prop) (x y : Applied) :
    Prop where
  symbol : x.symbol.AgreeBut N One y.symbol
  parameters : y.parameters = x.parameters

/-- Two steps that apply the same template with the same values. -/
structure Step.AgreeBut (N : String) (One : Application → Application → Prop) (s t : Step) :
    Prop where
  template : s.template.AgreeBut N One t.template
  values : t.values = s.values

section Alike

variable {N : String} (hN : N ≠ "") {One : Application → Application → Prop}
  (hOne : ∀ {app app' : Application}, One app app' → app.DiffersAt N app')

/-- The circumstances of applying the same template differ in the types alone. -/
theorem application_agreeBut {α : Type} {s t : Symbol α} (h : s.AgreeBut N One t)
    (d : Dictionary) : ∃ types, t.application d = (s.application d).declaring types ∧
      One (s.application d) ((s.application d).declaring types) := by
  have happlied := h.applied d
  obtain ⟨⟨-, hlibrary, halias⟩, -⟩ := h
  obtain ⟨template, library, aliasName⟩ := s
  obtain ⟨template', library', aliasName'⟩ := t
  obtain rfl : aliasName = aliasName' := halias.symm
  -- without a library there is nothing to qualify, and the two applications are one
  cases hlibrary with
  | none => exact ⟨[], rfl, happlied⟩
  | @some l k hlk =>
    obtain ⟨htemplates, -, -⟩ := hlk
    have hschemes : k.declared.securitySchemes = l.declared.securitySchemes :=
      htemplates .securityScheme
    have hsame : (⟨template', some k, aliasName⟩ : Symbol α).application d =
        ((⟨template, some l, aliasName⟩ : Symbol α).application d).declaring
          k.declared.types.names := by
      change Application.mk d aliasName k.declared.types.names k.declared.securitySchemes.names = _
      rw [hschemes]
      rfl
    exact ⟨_, hsame, hsame ▸ happlied⟩

include hN hOne

/-- Like steps take like methods to like ones. -/
theorem apply_alike {s t : Step} (h : s.AgreeBut N One t) {own : Option Method} {m m' r : Method}
    (hm : Method.Alike (captures N One) own m m') (hr : s.apply m = .ok r) :
    ∃ r', t.apply m' = .ok r' ∧ Method.Alike (captures N One) own r r' := by
  obtain ⟨types, happ, hone⟩ := application_agreeBut h.template s.values
  obtain ⟨r', hr', hlike⟩ := Merge.method_alike (captures_fits hOne hN hone) hm hr
  refine ⟨r', ?_, hlike⟩
  rw [Step.apply, Step.application, h.values, happ, h.template.mirrored.template]
  exact hr'

/-- Steps that apply the same templates keep methods alike. -/
theorem foldlM_alike {ss ts : List Step} (h : List.Forall₂ (Step.AgreeBut N One) ss ts)
    {own : Option Method} {m m' r : Method} (hm : Method.Alike (captures N One) own m m')
    (hr : ss.foldlM Step.apply m = .ok r) :
    ∃ r', ts.foldlM Step.apply m' = .ok r' ∧ Method.Alike (captures N One) own r r' := by
  induction h generalizing m m' with
  | nil =>
    cases pure_eq_ok.mp hr
    exact ⟨m', rfl, hm⟩
  | cons hstep _ ih =>
    rw [List.foldlM_cons] at hr ⊢
    obtain ⟨next, hnext, hr⟩ := bind_eq_ok.mp hr
    obtain ⟨next', hnext', hlike⟩ := apply_alike hN hOne hstep hm hnext
    obtain ⟨r', hr', hlike'⟩ := ih hlike hr
    exact ⟨r', bind_eq_ok.mpr ⟨next', hnext', hr'⟩, hlike'⟩

omit hN hOne in
/-- The methods of a resource and those of its type that it lacks say what they do of their own. -/
theorem withMethodsOf_alike (ms : Table Method) (t : ResourceType) :
    Table.Alike (Method.Alike (captures N One)) ms (withMethodsOf ms t) (withMethodsOf ms t) := by
  rw [withMethodsOf_eq]
  refine (Table.alike_refl (Method.alike_refl captures_keepsOwn) ms).append ?_
  rw [Table.Matches, List.forall₂_same]
  intro e he
  obtain ⟨verb, -, rfl⟩ := List.mem_map.mp he
  exact ⟨rfl, none, by simp, Method.alike_named none _⟩

/-- Resources begin alike under resource types that agree. -/
theorem begun_agreeBut {l : Resource.Located} {x y : Option Applied}
    (hxy : Option.Rel (Applied.AgreeBut N One) x y) {own : Resource} (hown : begun l x = .ok own) :
    ∃ own', begun l y = .ok own' ∧ Resource.Alike (captures N One) l.resource own own' := by
  have hrefl : Resource.Alike (captures N One) l.resource l.resource l.resource :=
    Resource.alike_refl captures_keepsOwn _
  cases hxy with
  | none =>
    cases hown
    exact ⟨l.resource, rfl, hrefl⟩
  | @some x y hxy =>
    obtain ⟨merged, hmerged, hown⟩ := bind_eq_ok.mp hown
    cases pure_eq_ok.mp hown
    obtain ⟨types, happ, hone⟩ :=
      application_agreeBut hxy.symbol (Dictionary.ofResource l x.parameters)
    obtain ⟨merged', hmerged', hlike⟩ :=
      Merge.resource_alike (captures_fits hOne hN hone) hrefl hmerged
    rw [← happ, ← hxy.parameters, ← hxy.symbol.mirrored.template] at hmerged'
    -- the type is merged into the resource without its methods; they come with its templates later
    have hmethods : merged.methods = l.resource.methods := by
      rw [(Merge.resource_eq_ok.mp hmerged).others]
    have hmethods' : merged'.methods = l.resource.methods := by
      rw [(Merge.resource_eq_ok.mp hmerged').others]
    refine ⟨_, bind_eq_ok.mpr ⟨merged', hmerged', rfl⟩, hlike.uriParameters, ?_, ?_⟩
    · simp only [hmethods, hmethods', hxy.symbol.mirrored.template]
      exact withMethodsOf_alike _ _
    · rw [hlike.others]

end Alike

/-! ## Listed steps -/

section Steps

variable {N : String} {a b : Api} (h : a.AgreeBut N b) {root : Resource}
include h

/-- A name means the same template in both documents. -/
theorem lookup_agreeBut {kind : SymbolKind} {scope : Option String} {name : String}
    (happlies : Applies (Symbols.ofApi a) root kind scope name) {s : Symbol kind.Template}
    (hs : (Symbols.ofApi a).lookup kind scope name = .ok s) :
    ∃ t, (Symbols.ofApi b).lookup kind scope name = .ok t ∧
      s.AgreeBut N (ApplyOne a b root) t := by
  obtain ⟨t, ht, hmirrored⟩ :=
    Symbols.lookup_mirrored (Library.isMirror_agreeBut N) h.mirrored hs
  exact ⟨t, ht, hmirrored, fun d => ⟨kind, scope, name, s, t, happlies, hs, ht,
    s.isAppliedAs_application d, t.isAppliedAs_application d⟩⟩

/-- Both applications of one template name its library alike, which declares the same types in both
documents, except perhaps the one. -/
theorem differsAt_of_applyOne (hplain : Symbols.AliasesArePlain a) {app app' : Application}
    (hone : ApplyOne a b root app app') : app.DiffersAt N app' := by
  obtain ⟨kind, scope, name, s, t, -, hs, ht, happ, happ'⟩ := hone
  obtain ⟨t', ht', hmirrored⟩ :=
    Symbols.lookup_mirrored (Library.isMirror_agreeBut N) h.mirrored hs
  obtain rfl : t = t' := Except.ok.inj (ht.symm.trans ht')
  refine ⟨fun n hn => ?_, ?_, fun A hA => ?_⟩
  · rw [happ.types, happ'.types]
    have hlibrary := hmirrored.library
    generalize s.library = o, t.library = o' at hlibrary
    cases hlibrary with
    | none => rfl
    | some hlk =>
      obtain ⟨-, htypes, -⟩ := hlk
      exact htypes n hn
  · rw [happ'.aliasName, hmirrored.aliasName, happ.aliasName]
  · have hfound := Option.eq_some_of_filter_eq_some hA
    rw [happ.aliasName] at hfound
    exact Symbols.hasBrackets_alias hplain hs A hfound

variable {l l' : Resource.Located} {m m' : Method}

/-- The step of a trait is found in both documents, and differs at most in the name. -/
theorem traitStep_agreeBut (hvalues : Dictionary.ofMethod l' m' = Dictionary.ofMethod l m)
    {scope : Option String} {c : Choice}
    (happlies : Applies (Symbols.ofApi a) root .trait scope c.name) {s : Step}
    (hs : traitStep (Symbols.ofApi a) l scope m c = .ok s) :
    ∃ t, traitStep (Symbols.ofApi b) l' scope m' c = .ok t ∧
      s.AgreeBut N (ApplyOne a b root) t := by
  obtain ⟨found, hfound, hs⟩ := bind_eq_ok.mp hs
  cases pure_eq_ok.mp hs
  obtain ⟨found', hfound', hagree⟩ := lookup_agreeBut h happlies hfound
  refine ⟨_, bind_eq_ok.mpr ⟨found', hfound', rfl⟩, ⟨⟨?_, hagree.mirrored.library,
    hagree.mirrored.aliasName⟩, hagree.applied⟩, congrFun hvalues _⟩
  exact congrArg Trait.method hagree.mirrored.template

theorem typeSteps_agreeBut (hname : m'.name = m.name)
    (hvalues : Dictionary.ofMethod l' m' = Dictionary.ofMethod l m) {x y : Applied}
    (hx : HasType (Symbols.ofApi a) root x) (hxy : x.AgreeBut N (ApplyOne a b root) y)
    {isDeclared : Bool} {ss : List Step}
    (hs : typeSteps (Symbols.ofApi a) l x isDeclared m = .ok ss) :
    ∃ ts, typeSteps (Symbols.ofApi b) l' y isDeclared m' = .ok ts ∧
      List.Forall₂ (Step.AgreeBut N (ApplyOne a b root)) ss ts := by
  have htemplates : templatesFor y.symbol.template m' isDeclared =
      templatesFor x.symbol.template m isDeclared := by
    rw [hxy.symbol.mirrored.template, templatesFor, templatesFor, Method.verb, Method.verb, hname]
  have hd : Dictionary.ofMethod l' m' y.parameters = Dictionary.ofMethod l m x.parameters := by
    rw [hvalues, hxy.parameters]
  obtain ⟨named, hnamed, hs⟩ := bind_eq_ok.mp hs
  cases pure_eq_ok.mp hs
  -- the traits that the type names are looked up in its own library
  obtain ⟨named', hnamed', hall⟩ := mapM_related (fun c hc s hs => by
    obtain ⟨c', hc', hs⟩ := bind_eq_ok.mp hs
    obtain ⟨t, ht, hst⟩ := traitStep_agreeBut h hvalues (applies_of_mem_type hx hc hc') hs
    exact ⟨t, bind_eq_ok.mpr ⟨c', hc', ht⟩, hst⟩) hnamed
  refine ⟨named' ++ (templatesFor x.symbol.template m isDeclared).map
    fun t => ⟨y.symbol.withTemplate t, Dictionary.ofMethod l m x.parameters⟩, ?_,
    List.rel_append hall ?_⟩
  -- the templates of the type are the same in both documents, and so are their values
  · rw [typeSteps, htemplates, hd, hxy.symbol.mirrored.template, hxy.symbol.mirrored.aliasName]
    exact bind_eq_ok.mpr ⟨named', hnamed', rfl⟩
  · rw [List.forall₂_map_left_iff, List.forall₂_map_right_iff, List.forall₂_same]
    exact fun t _ => ⟨⟨⟨rfl, hxy.symbol.mirrored.library, hxy.symbol.mirrored.aliasName⟩,
      hxy.symbol.applied⟩, rfl⟩

/-- The same steps resolve a method in both documents. -/
theorem steps_agreeBut (hname : m'.name = m.name) (htraits : m'.traits = m.traits)
    (hresource : l'.resource.traits = l.resource.traits)
    (hvalues : Dictionary.ofMethod l' m' = Dictionary.ofMethod l m)
    (hown : ∀ c ∈ l.resource.traits ++ m.traits, Applies (Symbols.ofApi a) root .trait none c.name)
    {x y : Option Applied} (hx : ∀ z ∈ x, HasType (Symbols.ofApi a) root z)
    (hxy : Option.Rel (Applied.AgreeBut N (ApplyOne a b root)) x y) {isDeclared : Bool}
    {ss : List Step} (hs : steps (Symbols.ofApi a) l x isDeclared m = .ok ss) :
    ∃ ts, steps (Symbols.ofApi b) l' y isDeclared m' = .ok ts ∧
      List.Forall₂ (Step.AgreeBut N (ApplyOne a b root)) ss ts := by
  obtain ⟨own, hsteps, hs⟩ := bind_eq_ok.mp hs
  obtain ⟨added, hadded, hs⟩ := bind_eq_ok.mp hs
  cases pure_eq_ok.mp hs
  obtain ⟨own', hown', hall⟩ :=
    mapM_related (fun c hc _ => traitStep_agreeBut h hvalues (hown c hc)) hsteps
  -- without a type there are no steps to add on either side
  obtain ⟨added', hadded', hall'⟩ : ∃ ts, addedSteps (Symbols.ofApi b) l' isDeclared m' y = .ok ts ∧
      List.Forall₂ (Step.AgreeBut N (ApplyOne a b root)) added ts := by
    cases hxy with
    | none =>
      cases hadded
      exact ⟨[], rfl, .nil⟩
    | some hxy => exact typeSteps_agreeBut h hname hvalues (hx _ rfl) hxy hadded
  refine ⟨own' ++ added', ?_, List.rel_append hall hall'⟩
  rw [steps, htraits, hresource]
  exact bind_eq_ok.mpr ⟨own', hown', bind_eq_ok.mpr ⟨added', hadded', rfl⟩⟩

/-- The same security schemes are found in both documents. -/
theorem checkSecurity_agreeBut {entries : List (Option Choice)}
    (hs : (Symbols.ofApi a).checkSecurity entries = .ok ()) :
    (Symbols.ofApi b).checkSecurity entries = .ok () := by
  rw [Symbols.checkSecurity_eq_ok] at hs ⊢
  intro c hc
  obtain ⟨s, hs⟩ := hs c hc
  obtain ⟨t, ht, -⟩ := Symbols.lookup_mirrored (Library.isMirror_agreeBut N) h.mirrored hs
  exact ⟨t, ht⟩

/-- The same resource type is found in both documents. -/
theorem resourceType_agreeBut {x : Option Applied}
    (hx : resourceType (Symbols.ofApi a) root = .ok x) :
    ∃ y, resourceType (Symbols.ofApi b) root = .ok y ∧
      Option.Rel (Applied.AgreeBut N (ApplyOne a b root)) x y := by
  rw [resourceType] at hx ⊢
  cases htype : root.type with
  | none =>
    rw [htype] at hx
    cases hx
    exact ⟨none, rfl, .none⟩
  | some c =>
    rw [htype] at hx
    simp only at hx ⊢
    split at hx
    · rename_i hempty
      cases hx
      rw [if_pos hempty]
      exact ⟨none, rfl, .none⟩
    -- a type is looked up under the same name on both sides
    · rename_i hgiven
      obtain ⟨s, hs, hx⟩ := bind_eq_ok.mp hx
      cases pure_eq_ok.mp hx
      obtain ⟨t, ht, hst⟩ := lookup_agreeBut h (.type htype) hs
      rw [if_neg hgiven]
      exact ⟨some ⟨t, c.parameters⟩, bind_eq_ok.mpr ⟨t, ht, rfl⟩, .some ⟨hst, rfl⟩⟩

end Steps

/-! ## Methods and resources -/

section Resources

variable {N : String} (hN : N ≠ "") {a b : Api} (h : a.AgreeBut N b)
  (hplain : Symbols.AliasesArePlain a) {root : Resource}
include hN h hplain

/-- Like methods are resolved to like ones. -/
theorem method_agreeBut {l l' : Resource.Located} (hl : l'.above = l.above)
    (hr : Resource.Alike (captures N (ApplyOne a b root)) root l.resource l'.resource)
    {x y : Option Applied} (hx : ∀ z ∈ x, HasType (Symbols.ofApi a) root z)
    (hxy : Option.Rel (Applied.AgreeBut N (ApplyOne a b root)) x y) {isDeclared : Bool}
    {own : Option Method} {m m' r : Method}
    (hown : ∀ c ∈ l.resource.traits ++ m.traits, Applies (Symbols.ofApi a) root .trait none c.name)
    (hm : Method.Alike (captures N (ApplyOne a b root)) own m m')
    (hmethod : method (Symbols.ofApi a) l x isDeclared m = .ok r) :
    ∃ r', method (Symbols.ofApi b) l' y isDeclared m' = .ok r' ∧
      Method.Alike (captures N (ApplyOne a b root)) own r r' := by
  obtain ⟨ss, hss, hrun, hsecured⟩ := method_eq_ok.mp hmethod
  have hname : m'.name = m.name := by rw [hm.others]
  have htraits : m'.traits = m.traits := by rw [hm.others]
  have hresource : l'.resource.traits = l.resource.traits := by rw [hr.others]
  have huri : l'.resource.uri = l.resource.uri := by rw [hr.others]
  -- the values depend on what the method and the resource are called, and on nothing else
  have hvalues : Dictionary.ofMethod l' m' = Dictionary.ofMethod l m := by
    funext parameters
    rw [Dictionary.ofMethod, Dictionary.ofMethod, Dictionary.ofResource, Dictionary.ofResource,
      Resource.Located.fullUri, Resource.Located.fullUri, Resource.Located.pathName,
      Resource.Located.pathName, Method.verb, Method.verb, hl, huri, hname]
  obtain ⟨ts, hts, hall⟩ := steps_agreeBut h hname htraits hresource hvalues hown hx hxy hss
  obtain ⟨r', hr', hlike⟩ := foldlM_alike hN (differsAt_of_applyOne h hplain) hall hm hrun
  have hsecuredBy : r'.securedBy = r.securedBy := by rw [hlike.others]
  exact ⟨r', method_eq_ok.mpr ⟨ts, hts, hr', hsecuredBy ▸ checkSecurity_agreeBut h hsecured⟩, hlike⟩

theorem methods_agreeBut {l l' : Resource.Located} (hl : l'.above = l.above)
    (hr : Resource.Alike (captures N (ApplyOne a b root)) root l.resource l'.resource)
    {x y : Option Applied} (hx : ∀ z ∈ x, HasType (Symbols.ofApi a) root z)
    (hxy : Option.Rel (Applied.AgreeBut N (ApplyOne a b root)) x y) {declared : List String}
    {own t t' ms : Table Method}
    (hown : ∀ e ∈ t, ∀ c ∈ l.resource.traits ++ e.2.traits,
      Applies (Symbols.ofApi a) root .trait none c.name)
    (ht : Table.Alike (Method.Alike (captures N (ApplyOne a b root))) own t t')
    (hms : methods (Symbols.ofApi a) l x declared t = .ok ms) :
    ∃ ms', methods (Symbols.ofApi b) l' y declared t' = .ok ms' ∧
      Table.Alike (Method.Alike (captures N (ApplyOne a b root))) own ms ms' := by
  induction ht generalizing ms with
  | nil =>
    cases hms
    exact ⟨[], rfl, .nil⟩
  | @cons e e' t t' he _ ih =>
    obtain ⟨verb, m⟩ := e
    obtain ⟨verb', m'⟩ := e'
    obtain ⟨rfl, o, ho, hm⟩ := he
    rw [List.forall_mem_cons] at hown
    rw [methods] at hms ⊢
    obtain ⟨r, hmethod, hms⟩ := bind_eq_ok.mp hms
    obtain ⟨rest, hrest, hms⟩ := bind_eq_ok.mp hms
    cases pure_eq_ok.mp hms
    -- the method and the rest of the table are carried over apart from each other
    obtain ⟨r', hr', hlike⟩ := method_agreeBut hN h hplain hl hr hx hxy hown.1 hm hmethod
    obtain ⟨rest', hrest', hall⟩ := ih hown.2 hrest
    exact ⟨_, bind_eq_ok.mpr ⟨r', hr', bind_eq_ok.mpr ⟨rest', hrest', rfl⟩⟩,
      .cons ⟨rfl, o, ho, hlike⟩ hall⟩

/-- A resource that can be arranged in one document can be in the other, and comes out alike. -/
theorem arranged_agreeBut {l : Resource.Located} {x : Option Applied} {own : Resource}
    {ms : Table Method} (harranged : Arranged (Symbols.ofApi a) l x own ms) :
    ∃ y own' ms', Arranged (Symbols.ofApi b) l y own' ms' ∧
      Resource.Alike (captures N (ApplyOne a b l.resource)) l.resource own own' ∧
      Table.Alike (Method.Alike (captures N (ApplyOne a b l.resource))) l.resource.methods ms
        ms' := by
  obtain ⟨htype, hbegun, hmethods⟩ := harranged
  obtain ⟨y, hy, hxy⟩ := resourceType_agreeBut h htype
  have hx : ∀ z ∈ x, HasType (Symbols.ofApi a) l.resource z :=
    fun z hz => (hasType_iff htype z).mpr hz
  obtain ⟨own', hown', hlike⟩ := begun_agreeBut hN (differsAt_of_applyOne h hplain) hxy hbegun
  have habove :
      (⟨own', l.above⟩ : Resource.Located).above = (⟨own, l.above⟩ : Resource.Located).above := rfl
  obtain ⟨ms', hms', hall⟩ := methods_agreeBut hN h hplain habove hlike hx hxy
    (applies_of_begun hbegun) hlike.methods hmethods
  exact ⟨y, own', ms', ⟨hy, hown', hms'⟩, hlike, hall⟩

end Resources

/-- Whether a resource has taken over all that its templates say, and its security schemes exist.
Only normal form is wanting then. -/
def Completes (symbols : Symbols) (l : Resource.Located) (r : Resource) : Prop :=
  ∃ applied own ms, Arranged symbols l applied own ms ∧
    symbols.checkSecurity own.securedBy = .ok () ∧ r = { own with methods := ms }

theorem completes_of_resource {symbols : Symbols} {l : Resource.Located} {r : Resource}
    (h : resource symbols l.above l.resource = .ok r) :
    ∃ done, Completes symbols l done ∧ done.normalize = .ok r := by
  obtain ⟨applied, own, ms, harranged, hsecured, hnormal⟩ := resource_eq_ok.mp h
  exact ⟨_, ⟨applied, own, ms, harranged, hsecured, rfl⟩, hnormal⟩

/-- A resource that has taken over all is resolved to its normal form. -/
theorem resource_of_completes {symbols : Symbols} {l : Resource.Located} {done : Resource}
    (h : Completes symbols l done) : resource symbols l.above l.resource = done.normalize := by
  obtain ⟨applied, own, ms, ⟨htype, hbegun, hmethods⟩, hsecured, rfl⟩ := h
  rw [resource, bind_of_eq_ok htype]
  cases applied with
  | none =>
    have hown : (.ok l.resource : Except Error Resource) = .ok own := hbegun
    simp only [bind_of_eq_ok hown, bind_of_eq_ok hmethods, bind_of_eq_ok hsecured]
  | some x =>
    have hown : applyToResource ⟨l.resource, l.above⟩ x = .ok own := hbegun
    simp only [bind_of_eq_ok hown, bind_of_eq_ok hmethods, bind_of_eq_ok hsecured]

/-- What a resource with all its templates is in one document, it is in the other one, but for the
types that mention the name. -/
theorem completes_alike {N : String} (hN : N ≠ "") {a b : Api} (h : a.AgreeBut N b)
    (hplain : Symbols.AliasesArePlain a) {l : Resource.Located} {r : Resource}
    (hr : Completes (Symbols.ofApi a) l r) :
    ∃ r', Completes (Symbols.ofApi b) l r' ∧
      Resource.Alike (captures N (ApplyOne a b l.resource)) l.resource r r' := by
  obtain ⟨x, own, ms, harranged, hsecured, rfl⟩ := hr
  obtain ⟨y, own', ms', harranged', hlike, hall⟩ := arranged_agreeBut hN h hplain harranged
  have hsecuredBy : own'.securedBy = own.securedBy := by rw [hlike.others]
  refine ⟨_, ⟨y, own', ms', harranged', ?_, rfl⟩, hlike.uriParameters, hall, ?_⟩
  · exact hsecuredBy ▸ checkSecurity_agreeBut h hsecured
  · rw [hlike.others]

/-- **A library changes nothing but how its templates read the types that they bring in.** Two
documents have the same resources and templates, and their libraries the same types, except that
some of them may declare a type N in one document and not in the other. Each resource of the first
document is resolved to the normal form of what all its templates make of it, and in the other
document to that of the same, save for places for types. There stands in both what the resource says
in that place of its own, or what one template that applies to the resource has brought in: each
name in it that the library of the template declares in a document is read there under the alias of
the library, so the places only differ if it mentions N. -/
theorem captured_of_resolve {N : String} (hN : N ≠ "") {a b a' : Api} (h : a.AgreeBut N b)
    (hplain : Symbols.AliasesArePlain a) (ha : a.resolve = .ok a') :
    List.Forall₂ (fun l l' => ∃ r r', Completes (Symbols.ofApi a) (alone l) r ∧
        r.normalize = .ok (alone l').resource ∧ Completes (Symbols.ofApi b) (alone l) r' ∧
        resource (Symbols.ofApi b) l.above (alone l).resource = r'.normalize ∧
        Resource.Alike (captures N (ApplyOne a b (alone l).resource)) (alone l).resource r r')
      a.located a'.located := by
  refine (resolvedTo_of_resolve ha).imp fun l l' hl => ?_
  obtain ⟨r, hr, hnormal⟩ := completes_of_resource (l := alone l) hl.2
  obtain ⟨r', hr', hlike⟩ := completes_alike hN h hplain hr
  exact ⟨r, r', hr, hnormal, hr', resource_of_completes hr', hlike⟩

/-- A trait whose body is of the type that it is given. -/
def carrier : Trait :=
  ⟨{ Method.named "carrier" with
    bodies :=
      { Bodies.empty with flat := some { Body.empty with type := some (.scalar "<<item>>") } } },
    none⟩

/-- A resource that gives that trait a type of the root document. -/
def parcel : Resource :=
  { (default : Resource) with
    uri := "/books"
    methods := [("get", { Method.named "GET" with
      traits := [Choice.applied "lib.carrier" [("item", .str "Book")]] })] }

/-- A document with that resource; the library of the trait declares the given types. -/
def delivery (types : List String) : Api :=
  { (default : Api) with
    libraries := [("lib", { (default : Library) with
      declared := { (default : Declarations) with
        types := types.map fun n => (n, default), traits := [("carrier", carrier)] } })]
    resources := [("/books", parcel)] }

/-- The two deliveries differ in the name `Book` alone. -/
theorem delivery_agreeBut : (delivery ["Book"]).AgreeBut "Book" (delivery []) where
  templates kind := by cases kind <;> rfl
  libraries := by
    refine .cons (.intro (fun kind => by cases kind <;> rfl) (fun n hn => ?_) .nil) .nil
    simp [Table.names, hn]
  resources := rfl

theorem delivery_plain (types : List String) : Symbols.AliasesArePlain (delivery types) := by
  intro own l h
  rcases Library.within_cons.mp h with ⟨rfl, -⟩ | hinner | hnone
  · decide
  · exact absurd hinner Library.not_within_nil
  · exact absurd hnone Library.not_within_nil

/-- The types of the flat bodies in a resource. -/
def bodyTypes (r : Resource) : List (Option String) :=
  r.methods.map fun e => (e.2.bodies.flat.bind Body.type).map Shape.render

/-- The type that the trait is given is that of the library where the library has one of the name,
and stays as it was given where it has none. -/
theorem book_captured : ∃ a' l' r r' other,
    (delivery ["Book"]).resolve = .ok a' ∧ a'.located = [l'] ∧
    Completes (Symbols.ofApi (delivery ["Book"])) (alone ⟨parcel, []⟩) r ∧
    Completes (Symbols.ofApi (delivery [])) (alone ⟨parcel, []⟩) r' ∧
    Resource.Alike (captures "Book" (ApplyOne (delivery ["Book"]) (delivery []) parcel)) parcel r
      r' ∧
    r.normalize = .ok (alone l').resource ∧ bodyTypes (alone l').resource = [some "lib.Book"] ∧
    r'.normalize = .ok other ∧ bodyTypes other = [some "Book"] := by
  obtain ⟨a', ha', hbook⟩ : ∃ a', (delivery ["Book"]).resolve = .ok a' ∧
      a'.located.map (fun l => bodyTypes (alone l).resource) = [[some "lib.Book"]] :=
    toOption_map_eq_some.mp (by decide +kernel)
  have hall := captured_of_resolve (by decide) delivery_agreeBut (delivery_plain _) ha'
  obtain ⟨l', rest, ⟨r, r', hr, hnormal, hr', hother, hlike⟩, hrest, hlocated⟩ :=
    List.forall₂_cons_left_iff.mp hall
  obtain rfl := List.forall₂_nil_left_iff.mp hrest
  rw [hlocated] at hbook
  obtain ⟨other, hnormal', hbare⟩ : ∃ other, r'.normalize = .ok other ∧
      bodyTypes other = [some "Book"] := by
    rw [← hother]
    exact toOption_map_eq_some.mp (by decide +kernel)
  exact ⟨a', l', r, r', other, ha', hlocated, hr, hr', hlike, hnormal, List.singleton_inj.mp hbook,
    hnormal', hbare⟩

/-- The types of the flat bodies in a document when it is resolved. -/
def resolvedTypes (a : Api) : Option (List (List (Option String))) :=
  a.resolve.toOption.map fun a => a.resources.map fun e => bodyTypes e.2

/-- A document that applies that trait, of a library with a placeholder for an alias, and after it
one of another library with a body of a type of its own. -/
def repacked (types : List String) : Api :=
  { (default : Api) with
    libraries := [
      ("<<lib>>", { (default : Library) with
        declared := { (default : Declarations) with
          types := types.map fun n => (n, default), traits := [("carrier", carrier)] } }),
      ("pens", { (default : Library) with
        declared := { (default : Declarations) with
          traits := [("holder", ⟨{ Method.named "holder" with
            bodies := { Bodies.empty with
              flat := some { Body.empty with type := some (.reference "Pen") } } }, none⟩)] } })]
    resources := [("/books", { parcel with
      methods := [("get", { Method.named "GET" with
        traits := [Choice.applied "<<lib>>.carrier" [("item", .str "Book")],
          Choice.applied "pens.holder" []] })] })] }

/-- The two repacked documents differ in the name `Book` alone. -/
theorem repacked_agreeBut : (repacked ["Book"]).AgreeBut "Book" (repacked []) where
  templates kind := by cases kind <;> rfl
  libraries := by
    refine .cons (.intro (fun kind => by cases kind <;> rfl) (fun n hn => ?_) .nil)
      (.cons (.intro (fun kind => rfl) (fun _ _ => Iff.rfl) .nil) .nil)
    simp [Table.names, hn]
  resources := rfl

/-- A name that comes in through a value, and stands in no text of the templates, is captured by the
library. If its alias holds the brackets of a placeholder, the captured name passes for one that is
left open, and the type of another template takes its place. -/
theorem value_captured :
    (¬∀ (N : String) (a b a' b' : Api), N ≠ "" → a.AgreeBut N b → Symbols.AliasesArePlain a →
      (∀ own l, Library.Within a.libraries own l → l.declared.resourceTypes = [] ∧
        ∀ e ∈ l.declared.traits, ∀ s ∈ e.2.method.texts, ¬N.toList <:+: s.toList) →
      a.resolve = .ok a' → b.resolve = .ok b' → b'.resources = a'.resources) ∧
    (repacked ["Book"]).AgreeBut "Book" (repacked []) ∧
      resolvedTypes (repacked ["Book"]) = some [[some "Pen"]] ∧
      resolvedTypes (repacked []) = some [[some "Book"]] := by
  refine ⟨fun h => ?_, repacked_agreeBut, by decide +kernel, by decide +kernel⟩
  have hown : ∀ own l, Library.Within (delivery ["Book"]).libraries own l →
      l.declared.resourceTypes = [] ∧
        ∀ e ∈ l.declared.traits, ∀ s ∈ e.2.method.texts, ¬"Book".toList <:+: s.toList := by
    intro own l hl
    rcases Library.within_cons.mp hl with ⟨-, rfl⟩ | hinner | hnone
    · exact ⟨rfl, by decide +kernel⟩
    · exact absurd hinner Library.not_within_nil
    · exact absurd hnone Library.not_within_nil
  obtain ⟨a', ha'⟩ : ∃ a', (delivery ["Book"]).resolve = .ok a' :=
    exists_of_isOk (by decide +kernel)
  obtain ⟨b', hb'⟩ : ∃ b', (delivery []).resolve = .ok b' := exists_of_isOk (by decide +kernel)
  have hclaimed := h "Book" _ _ a' b' (by decide) delivery_agreeBut (delivery_plain _) hown ha' hb'
  -- the two differ in the types of the bodies they give
  have hdiffer : resolvedTypes (delivery ["Book"]) ≠ resolvedTypes (delivery []) := by
    decide +kernel
  refine hdiffer ?_
  rw [resolvedTypes, resolvedTypes, ha', hb']
  change some (a'.resources.map _) = some (b'.resources.map _)
  rw [hclaimed]

end Resolution

end Raml
