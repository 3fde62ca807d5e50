import Raml.Proofs.Load.Journal
import Raml.Proofs.Normal.Entity
import Raml.Proofs.Resolution.Tree

/-!
# Resolved documents are normal

A resource is brought into normal form after everything has been merged into it, and every resource
of a result is what one of the document is resolved to. What is declared is normalized in the root
document and in every library that it uses, at any depth.
-/

namespace Raml

namespace Resolution

variable {symbols : Symbols}

/-- A resource that was resolved is normal. -/
theorem resource_isNormal {above : List String} {r r' : Resource}
    (h : resource symbols above r = .ok r') : r'.IsNormal := by
  obtain ⟨_, _, _, -, -, hnormal⟩ := resource_eq_ok.mp h
  exact Resource.normalize_isNormal hnormal

/-- Normal form is a matter of a resource itself, and not of those below it. -/
theorem isNormal_of_resolvedTo {l l' : Resource.Located} (h : ResolvedTo symbols l l') :
    l'.resource.IsNormal :=
  have halone := resource_isNormal h.2
  ⟨halone.uriParameters, halone.methods⟩

end Resolution

mutual

theorem Library.normalize_isNormal : ∀ l : Library,
    l.normalize.declared.IsNormal ∧
      ∀ own k, Library.Within l.normalize.libraries own k → k.declared.IsNormal
  | ⟨_, declared, libraries, _, _⟩ => by
      rw [Library.normalize]
      exact ⟨declared.normalize_isNormal, Library.normalizeAll_isNormal libraries⟩

/-- Every library is brought into normal form, also those that others use. -/
theorem Library.normalizeAll_isNormal : ∀ (libs : List (String × Library)) (own : String)
    (k : Library), Library.Within (Library.normalizeAll libs) own k → k.declared.IsNormal
  | [], own, k, h => by
      rw [Library.normalizeAll] at h
      exact absurd h Library.not_within_nil
  | (aliasName, l) :: rest, own, k, h => by
      rw [Library.normalizeAll] at h
      obtain ⟨hdeclared, hnested⟩ := Library.normalize_isNormal l
      rcases Library.within_cons.mp h with ⟨-, rfl⟩ | h | h
      · exact hdeclared
      · exact hnested own k h
      · exact Library.normalizeAll_isNormal rest own k h

end

/-- A document in normal form: every resource at any depth, and what is declared in the root
document and in all libraries. -/
structure Api.IsNormal (a : Api) : Prop where
  resources : ∀ r, Resource.Within a.resources r → r.IsNormal
  declared : a.declared.IsNormal
  libraries : ∀ own l, Library.Within a.libraries own l → l.declared.IsNormal

/-- A document that was resolved is normal throughout. -/
theorem Api.isNormal_of_resolve {a a' : Api} (h : a.resolve = .ok a') : a'.IsNormal := by
  have hresources : ∀ r, Resource.Within a'.resources r → r.IsNormal := by
    intro r hr
    obtain ⟨l', hl', rfl⟩ := hr.exists_mem_walkAll []
    obtain ⟨l, -, hl⟩ := exists_of_mem_right (Resolution.resolvedTo_of_resolve h) hl'
    exact Resolution.isNormal_of_resolvedTo hl
  obtain ⟨_, -, h⟩ := bind_eq_ok.mp h
  obtain ⟨resources, -, h⟩ := bind_eq_ok.mp h
  cases pure_eq_ok.mp h
  exact ⟨hresources, a.declared.normalize_isNormal, Library.normalizeAll_isNormal a.libraries⟩

/-- **What has been resolved is in normal form.** Whatever document is resolved, and whatever
libraries are read for it: if that succeeds, nothing in the result has a shortcut left. -/
theorem resolve_isNormal (a : Access) (base source : String) (api api' : Api) (j j' : Journal)
    (h : a.resolve base source api j = .ok api' j') : api'.IsNormal := by
  obtain ⟨loaded, j₁, -, h⟩ := of_run_bind h
  exact Api.isNormal_of_resolve (of_run_ofExcept h)

/-- A document whose resource has two ways to say what its body is, with another one below it. -/
def shortcuts : Api :=
  let array : Body :=
    { Body.empty with type := some (.scalar "array"), items := some (.reference "Book") }
  let get : Method :=
    { Method.named "GET" with
      queryParameters := [("page?", Parameter.named "page?")]
      bodies := ⟨[], some array, [("application/json", Body.empty)]⟩ }
  let book : Resource :=
    { (default : Resource) with
      uri := "/book", methods := [("get", get)]
      uriParameters := [("id?", Parameter.named "id?")] }
  { (default : Api) with
    declared := { (default : Declarations) with uses := [("lib", "lib.raml")] }
    resources := [("/books", { book with uri := "/books", nested := [("/book", book)] })] }

/-- A store with one library, which declares an array in the long way. -/
def shortcutsAccess : Access where
  store := {
    read := fun _ => .ok ("#%RAML 1.0 Library\ntypes:\n  Books:\n    type: array\n" ++
      "    items: Book\n").toUTF8.toList
    depth := 1 }
  settings := default

/-- The document `shortcuts` says everything in a longer way, and is resolved to a normal one. -/
theorem shortcuts_resolve : ∃ api j,
    shortcutsAccess.resolve "." "root.raml" shortcuts .empty = .ok api j ∧ api.IsNormal := by
  have hok : (shortcutsAccess.resolve "." "root.raml" shortcuts).outcome.isOk = true := by
    decide +kernel
  rw [Load.outcome] at hok
  cases h : shortcutsAccess.resolve "." "root.raml" shortcuts .empty with
  | ok api j => exact ⟨api, j, rfl, resolve_isNormal _ _ _ _ _ _ _ h⟩
  | error e j => simp [h, Except.isOk, Except.toBool] at hok

end Raml
