import Raml.Proofs.Document.Tree
import Raml.Proofs.Merge.Entity
import Raml.Resolution.Api

/-!
# Resolving resource by resource

Every resource is resolved where it stands, and no other one is read for it than itself.
`resource_eq_ok` says in which steps that is done, and `resolvedTo_of_resolve` that the resources
of a result are, one by one, what those of the document are resolved to. So what holds of one
resource that is resolved holds of all of them, without another walk over the tree.
-/

namespace Raml
namespace Resolution

/-! ## One resource -/

/-- What a resource is before its methods are resolved. -/
def begun (l : Resource.Located) : Option Applied → Except Error Resource
  | none => .ok l.resource
  | some a => applyToResource l a

/-- How a resource comes to its methods: the type that it names, what it takes over from it, and
its methods with all templates applied. -/
structure Arranged (symbols : Symbols) (l : Resource.Located) (applied : Option Applied)
    (own : Resource) (ms : Table Method) : Prop where
  type : resourceType symbols l.resource = .ok applied
  begun : begun l applied = .ok own
  methods : methods symbols ⟨own, l.above⟩ applied l.resource.methods.names own.methods = .ok ms

variable {symbols : Symbols} {above : List String} {r r' own : Resource} {applied : Option Applied}

/-- What a resource has become is brought into normal form once its security schemes are found. -/
theorem resource_eq_ok : resource symbols above r = .ok r' ↔
    ∃ applied own ms, Arranged symbols ⟨r, above⟩ applied own ms ∧
      symbols.checkSecurity own.securedBy = .ok () ∧
      Resource.normalize { own with methods := ms } = .ok r' := by
  have hresource : resource symbols above r = .ok r' ↔
      ∃ applied, resourceType symbols r = .ok applied ∧
        ∃ own, begun ⟨r, above⟩ applied = .ok own ∧
          ∃ ms, methods symbols ⟨own, above⟩ applied r.methods.names own.methods = .ok ms ∧
            symbols.checkSecurity own.securedBy = .ok () ∧
            Resource.normalize { own with methods := ms } = .ok r' := by
    rw [resource, bind_eq_ok]
    refine exists_congr fun applied => and_congr_right fun _ => ?_
    cases applied <;> simp only [begun, bind_eq_ok, Except.ok.injEq, exists_eq_left',
      Unique.exists_iff, PUnit.default_eq_unit]
  rw [hresource]
  constructor
  · rintro ⟨applied, htype, own, hown, ms, hms, hsecured, hnormal⟩
    exact ⟨applied, own, ms, ⟨htype, hown, hms⟩, hsecured, hnormal⟩
  · rintro ⟨applied, own, ms, h, hsecured, hnormal⟩
    exact ⟨applied, h.type, own, h.begun, ms, h.methods, hsecured, hnormal⟩

/-- A resource type has no say in where a resource stands. -/
theorem place_of_begun {l : Resource.Located} (h : begun l applied = .ok own) :
    own.uri = l.resource.uri ∧ own.nested = l.resource.nested := by
  cases applied with
  | none =>
    obtain rfl := Except.ok.inj h
    exact ⟨rfl, rfl⟩
  | some a =>
    obtain ⟨merged, hmerged, h⟩ := bind_eq_ok.mp h
    cases pure_eq_ok.mp h
    rw [(Merge.resource_eq_ok.mp hmerged).others]
    exact ⟨rfl, rfl⟩

/-- Resolution leaves a resource in its place. -/
theorem place_of_resource (h : resource symbols above r = .ok r') :
    r'.uri = r.uri ∧ r'.nested = r.nested := by
  obtain ⟨applied, own, ms, harranged, -, hnormal⟩ := resource_eq_ok.mp h
  obtain ⟨normal, -, hnormal⟩ := bind_eq_ok.mp hnormal
  cases pure_eq_ok.mp hnormal
  exact place_of_begun harranged.begun

/-! ## All of them -/

/-- A resource where it stands, without those below it. -/
def alone (l : Resource.Located) : Resource.Located := ⟨{ l.resource with nested := [] }, l.above⟩

/-- Whether a resource of the result is what a resource of the document is resolved to, apart from
those below it. -/
def ResolvedTo (symbols : Symbols) (l l' : Resource.Located) : Prop :=
  l'.above = l.above ∧ resource symbols l.above (alone l).resource = .ok (alone l').resource

mutual

theorem tree_resolvedTo : ∀ (r : Resource) (above : List String) (r' : Resource),
    tree symbols above r = .ok r' →
    List.Forall₂ (ResolvedTo symbols) (Resource.walk above r) (Resource.walk above r')
  | ⟨annotations, uri, displayName, description, methods, traits, type, securedBy, uriParameters,
      nested⟩, above, r', h => by
      rw [tree] at h
      obtain ⟨own, hown, h⟩ := bind_eq_ok.mp h
      obtain ⟨below, hnested, h⟩ := bind_eq_ok.mp h
      cases pure_eq_ok.mp h
      obtain ⟨huri, hnone⟩ : own.uri = uri ∧ own.nested = [] := place_of_resource hown
      have halone : own = { own with nested := [] } := by
        cases own
        cases hnone
        rfl
      rw [Resource.walk_eq, Resource.walk_eq]
      refine .cons ⟨rfl, hown.trans (congrArg _ halone)⟩ ?_
      rw [huri]
      exact trees_resolvedTo nested (uri :: above) below hnested

/-- The walk resolves every resource where it stands, at whatever depth. -/
theorem trees_resolvedTo : ∀ (rs : List (String × Resource)) (above : List String)
    (rs' : List (String × Resource)), trees symbols above rs = .ok rs' →
    List.Forall₂ (ResolvedTo symbols) (Resource.walkAll above rs) (Resource.walkAll above rs')
  | [], above, rs', h => by
      rw [trees] at h
      cases h
      exact .nil
  | (key, r) :: rest, above, rs', h => by
      rw [trees] at h
      obtain ⟨top, htop, h⟩ := bind_eq_ok.mp h
      obtain ⟨others, hothers, h⟩ := bind_eq_ok.mp h
      cases pure_eq_ok.mp h
      rw [Resource.walkAll, Resource.walkAll]
      exact List.rel_append (tree_resolvedTo r above top htop)
        (trees_resolvedTo rest above others hothers)

end

/-- A document is resolved by resolving each of its resources where it stands. -/
theorem resolvedTo_of_resolve {a a' : Api} (h : a.resolve = .ok a') :
    List.Forall₂ (ResolvedTo (Symbols.ofApi a)) a.located a'.located := by
  obtain ⟨_, -, h⟩ := bind_eq_ok.mp h
  obtain ⟨resources, hresources, h⟩ := bind_eq_ok.mp h
  cases pure_eq_ok.mp h
  exact trees_resolvedTo a.resources [] resources hresources

end Resolution
end Raml
