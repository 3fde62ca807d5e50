import Raml.Proofs.Merge.Filled
import Raml.Proofs.Merge.Precedence
import Raml.Proofs.Resolution.Mirror
import Raml.Proofs.Resolution.Steps

/-!
# Every security reference exists

References to security schemes come into a document in many places: they are written there, or
taken over from a resource type, a template for a method or a trait, where their placeholders are
filled in and the names of the library are qualified. They are looked up when nothing can be added
any more, so each of them names a scheme (`secured_of_resolve`).

`Enters` says where the entries come from. A merge adds to the entries that are there and keeps
their order, so what one template has entered is there when all have been applied.
-/

namespace Raml

open Template (Dictionary)

/-! ## References that exist -/

/-- Whether each entry, unless it is null, names a security scheme. -/
def Symbols.FindsAll (s : Symbols) (entries : List (Option Choice)) : Prop :=
  ∀ c, some c ∈ entries → ∃ found, s.lookup .securityScheme none c.name = .ok found

theorem Symbols.checkSecurity_eq_ok {s : Symbols} {entries : List (Option Choice)} :
    s.checkSecurity entries = .ok () ↔ s.FindsAll entries := by
  induction entries with
  | nil => simp [checkSecurity, FindsAll]
  | cons o entries ih =>
    cases o with
    | none =>
      rw [checkSecurity, ih]
      simp [FindsAll]
    | some c =>
      rw [checkSecurity, bind_eq_ok]
      simp only [ih, FindsAll, List.mem_cons, Option.some.injEq, forall_eq_or_imp,
        lookup_securityScheme, exists_and_right]
      exact Iff.rfl

/-! ## Where references come from -/

/-- The name by which a scheme is known outside that a template names: qualified, if the library of
the template declares the scheme. -/
def Symbol.schemeName {α : Type} (s : Symbol α) (n : String) : String :=
  match s.library, s.aliasName with
  | some l, some aliasName =>
    if n ∈ l.declares .securityScheme then Symbols.qualified aliasName n else n
  | _, _ => n

/-- The references of a template, and the values that it is applied with. -/
structure Contribution where
  entries : Symbol (List (Option Choice))
  values : Dictionary

namespace Contribution

/-- Whether an entry is what a reference of the template becomes: its placeholders are filled in,
and it goes by the name by which the scheme is known outside. -/
def Gives (x : Contribution) (e : Choice) (c : Choice) : Prop :=
  ∃ n, (x.entries.application x.values).name c.name = .ok n ∧ e.name = x.entries.schemeName n

end Contribution

/-- Whether entries have become others by what templates contribute: those that were there come
first, each reference of a template is there under its name, and nothing comes from elsewhere. -/
structure Enters (xs : List Contribution) (before after : List (Option Choice)) : Prop where
  kept : before <+: after
  entered : ∀ x ∈ xs, ∀ c, some c ∈ x.entries.template → ∃ e, some e ∈ after ∧ x.Gives e c
  origin : ∀ e, some e ∈ after → some e ∈ before ∨ ∃ x ∈ xs, ∃ c, some c ∈ x.entries.template ∧
    x.Gives e c

namespace Enters

variable {xs ys : List Contribution} {before between after : List (Option Choice)}

theorem refl : Enters [] before before :=
  ⟨List.prefix_refl _, List.forall_mem_nil _, fun _ => .inl⟩

/-- What is entered in two steps is entered in their order. -/
theorem trans (h : Enters xs before between) (h' : Enters ys between after) :
    Enters (xs ++ ys) before after where
  kept := h.kept.trans h'.kept
  entered := by
    rw [List.forall_mem_append]
    refine ⟨fun x hx c hc => ?_, h'.entered⟩
    obtain ⟨e, he, hgives⟩ := h.entered x hx c hc
    exact ⟨e, h'.kept.subset he, hgives⟩
  origin := by
    intro e he
    rcases h'.origin e he with he | ⟨x, hx, hgives⟩
    · rcases h.origin e he with he | ⟨x, hx, hgives⟩
      · exact .inl he
      · exact .inr ⟨x, List.mem_append_left _ hx, hgives⟩
    · exact .inr ⟨x, List.mem_append_right _ hx, hgives⟩

end Enters

/-! ## What a merge enters -/

namespace Merge

variable {α : Type} {s : Symbol α} {d : Dictionary}

theorem application_schemeName (n : String) : (s.application d).schemeName n = s.schemeName n := by
  obtain ⟨template, library, aliasName⟩ := s
  cases library with
  | none =>
    simp only [Symbol.application, Symbol.schemeName, Application.schemeName]
    split <;> simp
  | some l =>
    cases aliasName with
    | none => rfl
    | some aliasName =>
      have hdeclares : l.declared.securitySchemes.names.contains n = true ↔
          n ∈ l.declares .securityScheme := List.contains_iff_mem
      by_cases hempty : aliasName.isEmpty = true <;>
        simp [Symbol.application, Symbol.schemeName, Application.schemeName,
          Application.aliasName?, Option.filter, hempty, Symbols.qualified, ← hdeclares]

/-- A reference that a template gives is looked up where the template comes from. -/
theorem gives_of_choice {entries : List (Option Choice)} {c e : Choice}
    (h : (s.application d).choice c = .ok e) :
    Contribution.Gives ⟨s.withTemplate entries, d⟩ e c := by
  obtain ⟨n, hn, h⟩ := bind_eq_ok.mp h
  obtain ⟨parameters, -, h⟩ := bind_eq_ok.mp h
  cases pure_eq_ok.mp h
  exact ⟨n, hn, application_schemeName n⟩

/-- Merging references enters those of the template. -/
theorem enters_of_security {entries before after : List (Option Choice)}
    (h : security (s.application d) before entries = .ok after) :
    Enters [⟨s.withTemplate entries, d⟩] before after := by
  have hkept := security_grow h
  obtain ⟨others, hothers, h⟩ := bind_eq_ok.mp h
  have hafter := pure_eq_ok.mp h
  refine ⟨hkept, List.forall_mem_singleton.mpr fun c hc => ?_, fun e he => ?_⟩
  · obtain ⟨_, ho, hchoice⟩ := exists_of_mem_left (mapM_eq_ok.mp hothers) hc
    obtain ⟨given, hgiven, rfl⟩ := map_eq_ok.mp hchoice
    -- it is there itself, or an entry of the same name was there before it
    have hentered : ∃ o ∈ appendMissing sameName (Option.map Choice.name) before others,
        o.map Choice.name = some given.name := exists_mem_appendMissing sameName_iff ho
    obtain ⟨o, ho, hsame⟩ := hentered
    obtain ⟨e, rfl, hname⟩ := Option.map_eq_some_iff.mp hsame
    obtain ⟨n, hn, heq⟩ : Contribution.Gives ⟨s.withTemplate entries, d⟩ given c :=
      gives_of_choice hgiven
    exact ⟨e, hafter ▸ ho, n, hn, hname.trans heq⟩
  · have hall : ∀ o ∈ after, o ∈ before ∨ o ∈ others := hafter ▸
      forall_mem_appendFrom (fun _ => .inr) (fun _ => .inl)
    refine (hall _ he).imp_right fun he => ?_
    obtain ⟨o, ho, hchoice⟩ := exists_of_mem_right (mapM_eq_ok.mp hothers) he
    cases o with
    | none => cases hchoice
    | some c =>
      obtain ⟨given, hgiven, heq⟩ := map_eq_ok.mp hchoice
      cases heq
      exact ⟨_, List.mem_singleton_self _, c, ho, gives_of_choice hgiven⟩

end Merge

/-! ## The whole document -/

namespace Resolution

/-- What a step contributes to the references of a method. -/
def Step.contribution (s : Step) : Contribution :=
  ⟨s.template.withTemplate s.template.template.securedBy, s.values⟩

/-- What the type of a resource contributes to its references. -/
def typeContribution (l : Resource.Located) (a : Applied) : Contribution :=
  ⟨a.symbol.withTemplate a.symbol.template.securedBy, Dictionary.ofResource l a.parameters⟩

/-- Where the references of a resolved resource come from: its own from the document and from its
type, those of a method from what it was to begin with and from all that was applied to it. -/
structure EntersLocated (symbols : Symbols) (l l' : Resource.Located) (applied : Option Applied)
    (own : Resource) : Prop where
  type : resourceType symbols l.resource = .ok applied
  begun : begun l applied = .ok own
  resource : Enters (applied.toList.map (typeContribution l)) l.resource.securedBy
    l'.resource.securedBy
  methods : Table.Matches (fun verb m m' => ∃ ss,
    steps symbols ⟨own, l.above⟩ applied (l.resource.methods.names.contains verb) m = .ok ss ∧
      Enters (ss.map Step.contribution) m.securedBy m'.securedBy) own.methods l'.resource.methods

section Document

variable {symbols : Symbols} {m m' : Method} {l l' : Resource.Located} {r r' : Resource}

theorem Step.enters {s : Step} (h : s.apply m = .ok m') :
    Enters [s.contribution] m.securedBy m'.securedBy :=
  Merge.enters_of_security (Merge.method_eq_ok.mp h).securedBy

/-- The references of a method are entered step by step. -/
theorem enters_of_steps {ss : List Step} (h : ss.foldlM Step.apply m = .ok m') :
    Enters (ss.map Step.contribution) m.securedBy m'.securedBy := by
  induction ss generalizing m with
  | nil =>
    cases pure_eq_ok.mp h
    exact .refl
  | cons s ss ih =>
    rw [List.foldlM_cons] at h
    obtain ⟨next, hnext, h⟩ := bind_eq_ok.mp h
    exact (Step.enters hnext).trans (ih h)

theorem enters_of_begun {applied : Option Applied} {own : Resource}
    (h : begun l applied = .ok own) :
    Enters (applied.toList.map (typeContribution l)) l.resource.securedBy own.securedBy := by
  cases applied with
  | none =>
    cases h
    exact .refl
  | some a =>
    obtain ⟨merged, hmerged, h⟩ := bind_eq_ok.mp h
    cases pure_eq_ok.mp h
    exact Merge.enters_of_security (Merge.resource_eq_ok.mp hmerged).securedBy

theorem securedBy_normalize (h : m.normalize = .ok m') : m'.securedBy = m.securedBy := by
  obtain ⟨bodies, -, h⟩ := bind_eq_ok.mp h
  obtain ⟨responses, -, h⟩ := bind_eq_ok.mp h
  rw [← pure_eq_ok.mp h]

/-- A resource that is resolved has references that are found, and each can be traced. -/
theorem enters_of_resolvedTo (h : ResolvedTo symbols l l') :
    (symbols.FindsAll l'.resource.securedBy ∧
      ∀ e ∈ l'.resource.methods, symbols.FindsAll e.2.securedBy) ∧
    ∃ applied own, EntersLocated symbols (alone l) l' applied own := by
  obtain ⟨applied, own, ms, harranged, hsecured, hnormal⟩ := resource_eq_ok.mp h.2
  obtain ⟨normal, hmethods, hnormal⟩ := bind_eq_ok.mp hnormal
  have hresult := pure_eq_ok.mp hnormal
  have hsecuredBy : l'.resource.securedBy = own.securedBy :=
    (congrArg Resource.securedBy hresult).symm
  have htable : l'.resource.methods = normal := (congrArg Resource.methods hresult).symm
  -- every method has its references when it is resolved, and normal form leaves them alone
  have hall : Table.Matches (fun verb m m' => symbols.FindsAll m'.securedBy ∧ ∃ ss,
      steps symbols ⟨own, l.above⟩ applied (l.resource.methods.names.contains verb) m = .ok ss ∧
        Enters (ss.map Step.contribution) m.securedBy m'.securedBy) own.methods
      l'.resource.methods := by
    rw [htable]
    refine ((matches_of_methods harranged.methods).trans
      (Table.matches_of_mapValuesM hmethods)).mono ?_
    rintro verb m m'' ⟨m', hm', hnormal⟩
    obtain ⟨ss, hss, hrun, hfound⟩ := method_eq_ok.mp hm'
    rw [securedBy_normalize hnormal]
    exact ⟨Symbols.checkSecurity_eq_ok.mp hfound, ss, hss, enters_of_steps hrun⟩
  refine ⟨⟨?_, fun e he => ?_⟩, applied, own, harranged.type, harranged.begun, ?_, ?_⟩
  · exact hsecuredBy ▸ Symbols.checkSecurity_eq_ok.mp hsecured
  · obtain ⟨m, -, hfound, -⟩ := hall.of_mem he
    exact hfound
  · exact hsecuredBy ▸ enters_of_begun harranged.begun
  · exact hall.mono fun _ _ _ h => h.2

end Document

/-! ### Names in normal form -/

/-- Normal form is for types alone, so every name keeps its meaning. -/
theorem isMirror_normalize : Library.IsMirror fun l k => k = l.normalize where
  templates := by
    rintro ⟨annotations, declared, libraries, location, usage⟩ _ rfl kind
    cases kind <;> rfl
  libraries := by
    rintro ⟨annotations, declared, libraries, location, usage⟩ _ rfl
    rw [Library.normalize]
    induction libraries with
    | nil => exact .nil
    | cons e libraries ih => exact .cons ⟨rfl, rfl⟩ ih

/-- What a name means in a document, it means in the resolved one. -/
theorem lookup_of_resolve {a a' : Api} (h : a.resolve = .ok a') {kind : SymbolKind}
    {scope : Option String} {name : String} {found : Symbol kind.Template}
    (hfound : (Symbols.ofApi a).lookup kind scope name = .ok found) :
    ∃ found', (Symbols.ofApi a').lookup kind scope name = .ok found' := by
  obtain ⟨_, -, h⟩ := bind_eq_ok.mp h
  obtain ⟨resources, -, h⟩ := bind_eq_ok.mp h
  cases pure_eq_ok.mp h
  have hmirror : Symbols.ApiMirrored (fun l k => k = l.normalize) a
      { a.normalizeDeclared with resources := resources } := by
    refine ⟨fun kind => by cases kind <;> rfl, ?_⟩
    have hroot := isMirror_normalize.libraries (l := { (default : Library) with
      libraries := a.libraries }) rfl
    rwa [Library.normalize] at hroot
  obtain ⟨found', hfound', -⟩ := Symbols.lookup_mirrored isMirror_normalize hmirror hfound
  exact ⟨found', hfound'⟩

/-- What is found before resolution is found after it. -/
theorem findsAll_of_resolve {a a' : Api} (h : a.resolve = .ok a') {entries : List (Option Choice)}
    (hall : (Symbols.ofApi a).FindsAll entries) : (Symbols.ofApi a').FindsAll entries := by
  intro c hc
  obtain ⟨found, hfound⟩ := hall c hc
  exact lookup_of_resolve h hfound

/-- **Every security reference of a resolved document exists.** The references of the root, of every
resource and of every method name schemes of the document. Those of resources and methods are the
ones that were written there, and those of all templates that were applied; a scheme that the
library of a template declares goes by the alias of the library. -/
theorem secured_of_resolve {a a' : Api} (h : a.resolve = .ok a') :
    (Symbols.ofApi a').FindsAll a'.securedBy ∧
    (∀ l ∈ a'.located, (Symbols.ofApi a').FindsAll l.resource.securedBy ∧
      ∀ e ∈ l.resource.methods, (Symbols.ofApi a').FindsAll e.2.securedBy) ∧
    List.Forall₂ (fun l l' => ∃ applied own,
      EntersLocated (Symbols.ofApi a) (alone l) l' applied own) a.located a'.located := by
  have hall := resolvedTo_of_resolve h
  refine ⟨?_, fun l' hl' => ?_, hall.imp fun l l' hl => (enters_of_resolvedTo hl).2⟩
  · refine findsAll_of_resolve h ?_
    obtain ⟨_, hroot, h⟩ := bind_eq_ok.mp h
    obtain ⟨resources, -, h⟩ := bind_eq_ok.mp h
    cases pure_eq_ok.mp h
    exact Symbols.checkSecurity_eq_ok.mp hroot
  · obtain ⟨l, -, hl⟩ := exists_of_mem_right hall hl'
    have hfound := (enters_of_resolvedTo hl).1
    exact ⟨findsAll_of_resolve h hfound.1, fun e he => findsAll_of_resolve h (hfound.2 e he)⟩

/-- A template for a method with a reference to a scheme. -/
def guardedGet : Method :=
  { Method.named "GET" with securedBy := [some (Choice.applied "oauth" [])] }

/-- A resource type with that template, and with a reference of its own. -/
def guarded : ResourceType :=
  { (default : ResourceType) with
    securedBy := [some (Choice.applied "<<scheme>>" [])], methods := [("get", guardedGet)] }

/-- A library that declares that type and the scheme. -/
def schemes : Library :=
  { (default : Library) with
    declared := { (default : Declarations) with
      securitySchemes := [("oauth", default)], resourceTypes := [("guarded", guarded)] } }

/-- A resource of that type. -/
def account : Resource :=
  { (default : Resource) with
    uri := "/account", type := some (Choice.applied "lib.guarded" [("scheme", .str "oauth")]) }

/-- A document with that resource. -/
def accounts : Api :=
  { (default : Api) with libraries := [("lib", schemes)], resources := [("/account", account)] }

/-- The resource type that applies to `account`. -/
def accountsType : Applied := ⟨⟨guarded, some schemes, some "lib"⟩, [("scheme", .str "oauth")]⟩

/-- The scheme of the library goes by the alias of the library, where the resource takes it over
and where the method does that comes with the type. -/
theorem accounts_secured : ∃ a' l', accounts.resolve = .ok a' ∧ a'.located = [l'] ∧
    (∃ found, (Symbols.ofApi a').lookup .securityScheme none "lib.oauth" = .ok found) ∧
    (∃ c, some c ∈ l'.resource.securedBy ∧ c.name = "lib.oauth") ∧
    ∃ get c, l'.resource.methods.get? "get" = some get ∧ some c ∈ get.securedBy ∧
      c.name = "lib.oauth" := by
  obtain ⟨a', ha'⟩ : ∃ a', accounts.resolve = .ok a' := exists_of_isOk (by decide +kernel)
  obtain ⟨-, hfound, hall⟩ := secured_of_resolve ha'
  obtain ⟨l', rest, ⟨applied, own, henters⟩, hrest, hlocated⟩ := List.forall₂_cons_left_iff.mp hall
  obtain rfl := List.forall₂_nil_left_iff.mp hrest
  obtain rfl := (hasType_iff henters.type accountsType).mp ⟨_, rfl, by decide, by rfl, rfl⟩
  have hname : ∀ d raw, (Application.name (accountsType.symbol.application d) raw).toOption =
      some "oauth" → ∀ n, (accountsType.symbol.application d).name raw = .ok n →
        accountsType.symbol.schemeName n = "lib.oauth" := by
    intro d raw h n hn
    rw [hn] at h
    rw [Option.some.inj h]
    decide +kernel
  -- the scheme of the type is filled in, and goes by the library's alias
  obtain ⟨c, hc, n, hn, hc'⟩ := henters.resource.entered _ (List.mem_singleton_self _)
    (Choice.applied "<<scheme>>" []) (List.mem_singleton_self _)
  replace hc' := hc'.trans (hname _ _ (by decide +kernel) n hn)
  have hget : Option.Rel _ (own.methods.get? "get") _ := henters.methods.get?
  rw [(isBegun_some henters.begun).methods] at hget
  cases hmethod : l'.resource.methods.get? "get" with
  | none =>
    rw [hmethod] at hget
    cases hget
  | some get =>
    rw [hmethod] at hget
    obtain ⟨ss, hss, hmethod'⟩ := Option.rel_some_some.mp hget
    -- the method's scheme comes with the template for its verb
    have hstep := mem_steps_of_mem_templatesFor (t := guardedGet) hss (List.mem_singleton_self _)
    obtain ⟨e, he, n, hn, he'⟩ := hmethod'.entered _ (List.mem_map_of_mem hstep)
      (Choice.applied "oauth" []) (List.mem_singleton_self _)
    have hplain : ∀ d, (accountsType.symbol.application d).name "oauth" = .ok "oauth" := by
      intro d
      rw [Merge.name_eq_ok, Template.instantiate_eq, Template.fill_of_noAngle (by decide)]
      exact ⟨"oauth", rfl, rfl⟩
    replace he' := he'.trans (hname _ _ (congrArg Except.toOption (hplain _)) n hn)
    refine ⟨a', l', ha', hlocated, ?_, ⟨c, hc, hc'⟩, get, e, hmethod, he, he'⟩
    exact hc' ▸ (hfound l' (hlocated ▸ List.mem_singleton_self _)).1 c hc

end Resolution
end Raml
