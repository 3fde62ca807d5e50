import Raml.Proofs.Document.Keyed
import Raml.Proofs.Resolution.Traits

/-!
# What follows from keys

The resources of a document are reached from the root along the keys they stand under
(`Resource.Reached`). Where everything goes by its key, the path of a resource is made of
these keys, and the templates of a resource type that are merged into a method are the ones under
the key of the method (`keyed_of_build`).

A method that says that it has another name is taken for one on another verb: `post_under_get` is
the shortest way to lose a template.
-/

namespace Raml

/-! ## Along the keys -/

namespace Resource

/-- A resource is reached along keys that are paths; `above` holds the URIs of what is above all
of them. -/
inductive Reached : List (String × Resource) → List String → List String → Located → Prop
  | here {rs : List (String × Resource)} {above : List String} {key : String} {r : Resource} :
      (key, r) ∈ rs → isPath key = true → Reached rs above [key] ⟨r, above⟩
  | under {rs : List (String × Resource)} {above path : List String} {key : String}
      {top : Resource} {l : Located} : (key, top) ∈ rs → isPath key = true →
      Reached top.nested (top.uri :: above) path l → Reached rs above (key :: path) l

theorem mem_walkAll_of_reached {rs : List (String × Resource)} {above path : List String}
    {l : Located} (h : Reached rs above path l) : l ∈ walkAll above rs := by
  induction h with
  | here hmem _ =>
    refine mem_walkAll.mpr ⟨_, hmem, ?_⟩
    rw [walk_eq]
    exact List.mem_cons_self ..
  | under hmem _ _ ih =>
    refine mem_walkAll.mpr ⟨_, hmem, ?_⟩
    rw [walk_eq]
    exact List.mem_cons_of_mem _ ih

/-- The URIs on the way to a resource are the keys on the way. -/
theorem uris_of_reached {rs : List (String × Resource)} {above path : List String} {l : Located}
    (hkeyed : AreKeyed rs) (h : Reached rs above path l) :
    (l.resource.uri :: l.above).reverse = above.reverse ++ path := by
  induction h with
  | here hmem hpath =>
    obtain ⟨huri, -, -⟩ := hkeyed
    rw [huri _ hmem hpath, List.reverse_cons]
  | under hmem hpath _ ih =>
    obtain ⟨huri, -, hnested⟩ := hkeyed
    rw [ih (hnested _ hmem), List.reverse_cons, huri _ hmem hpath, List.append_assoc,
      List.singleton_append]

/-- In keyed resources every method comes under its verb. -/
theorem methods_of_areKeyed {rs : List (String × Resource)} (h : AreKeyed rs)
    {above : List String} {l : Located} (hl : l ∈ walkAll above rs) :
    ∀ e ∈ l.resource.methods, e.2.IsKeyedUnder e.1 := by
  induction h generalizing above with
  | intro huri hmethods hnested ih =>
    obtain ⟨e, he, hl⟩ := mem_walkAll.mp hl
    rw [walk_eq] at hl
    rcases List.mem_cons.mp hl with rfl | hl
    · exact hmethods e he
    · exact ih e he hl

end Resource

namespace Resolution

/-- The templates of a resource type under the key of a method. -/
def templatesUnder (t : ResourceType) (key : String) (isDeclared : Bool) : List Method :=
  (t.methods.get? key).toList ++ if isDeclared then (t.optionalMethods.get? key).toList else []

/-- A method that a resource type adds is named after its verb. -/
theorem of_mem_withMethodsOf {ms : Table Method} {t : ResourceType} {e : String × Method}
    (h : e ∈ withMethodsOf ms t) : e ∈ ms ∨ e.2 = Method.named (Text.Unicode.toUpper e.1) := by
  rw [withMethodsOf] at h
  generalize t.methods.names = names at h
  induction names generalizing ms with
  | nil => exact .inl h
  | cons verb names ih =>
    rw [List.foldl_cons] at h
    rcases ih h with h | h
    · split at h
      · exact .inl h
      · rcases Table.of_mem_set h with rfl | h
        · exact .inr rfl
        · exact .inl h
    · exact .inr h

/-- What stands under a verb is for that verb, also when it came with the type. -/
theorem verb_of_mem_begun {l : Resource.Located} {a : Applied} {own : Resource}
    (hkeyed : ∀ e ∈ l.resource.methods, e.2.IsKeyedUnder e.1) (h : begun l (some a) = .ok own)
    {e : String × Method} (he : e ∈ own.methods) (hverb : e.1 ∈ verbs) : e.2.verb = e.1 := by
  rw [methods_of_begun h] at he
  rcases of_mem_withMethodsOf he with he | he
  · rw [Method.verb, (hkeyed e he).name, (verb_of_verbs e.1 hverb).1]
  · rw [Method.verb, he]
    exact (verb_of_verbs e.1 hverb).2

/-- **What stands under a key goes by it.** If no node of a document says otherwise, its methods
have the names of their keys, its responses their codes and its resources their URIs. So a
resource that is reached along paths has a path that is made of them; and when the traits of a
method under a verb have been applied, the templates of the resource type that are to follow are
those under that verb. -/
theorem keyed_of_build {source version : String} {entries : List (Value × Value)} {a : Api}
    (hkeyed : Node.IsKeyed ⟨.document, "", .map entries⟩)
    (h : Api.build source version entries = .ok a) :
    a.IsKeyed ∧
    (∀ path l, Resource.Reached a.resources [] path l → l ∈ a.located ∧
      path.getLast? = some l.resource.uri ∧ l.fullUri = String.join path) ∧
    ∀ l ∈ a.located, (∀ e ∈ l.resource.methods, e.2.IsKeyedUnder e.1) ∧
      ∀ (symbols : Symbols) (applied : Applied) (own : Resource),
        begun (alone l) (some applied) = .ok own → ∀ e ∈ own.methods, e.1 ∈ verbs →
          ∀ m, applyTraits symbols ⟨own, l.above⟩ none e.2 (own.traits ++ e.2.traits) = .ok m →
            ∀ isDeclared, templatesFor applied.symbol.template m isDeclared =
              templatesUnder applied.symbol.template e.1 isDeclared := by
  have ha : a.IsKeyed := Api.isKeyed_of_build hkeyed h
  refine ⟨ha, fun path l hl => ?_, fun l hl => ?_⟩
  · have huris : (l.resource.uri :: l.above).reverse = path :=
      Resource.uris_of_reached ha.resources hl
    refine ⟨Resource.mem_walkAll_of_reached hl, ?_, ?_⟩
    · rw [← huris, List.getLast?_reverse, List.head?_cons]
    · rw [Resource.Located.fullUri, Resource.fullUri, huris]
  · have hmethods := Resource.methods_of_areKeyed ha.resources hl
    refine ⟨hmethods, fun symbols applied own hown e he hverb m hm isDeclared => ?_⟩
    -- traits leave a method its name, and the name is that of the key
    have hname : m.verb = e.1 := by
      rw [verb_congr (applyTraits_name hm)]
      exact verb_of_mem_begun (l := alone l) hmethods hown he hverb
    rw [templatesFor, hname, templatesUnder]

/-- A resource with a method whose node says what its key says. -/
def bookNode : Value := .map [
  (.str "type", .str "item"),
  (.str "get", .map [(.str "name", .str "GET"), (.str "responses", .map [(.int 200, .null)])])]

/-- The entries of a document with that resource below another one, and with its type. -/
def libraryEntries : List (Value × Value) := [
  (.str "resourceTypes", .map [(.str "item", .map [
    (.str "get?", .map [(.str "description", .str "Reads")])])]),
  (.str "/books", .map [(.str "/\x7bid\x7d", bookNode)])]

theorem bookNode_isKeyed (key : String) : Node.IsKeyed ⟨.resource, key, bookNode⟩ := by
  have hresponse : Node.IsKeyed ⟨.response, "200", .null⟩ := Node.isKeyed_of_entries_nil rfl
  refine .intro (List.forall_mem_nil _) (List.forall_mem_singleton.mpr (.intro ?_ ?_))
  · exact List.forall_mem_singleton.mpr (.inr (by decide))
  · exact List.forall_mem_cons.mpr ⟨hresponse, List.forall_mem_singleton.mpr hresponse⟩

theorem libraryEntries_isKeyed : Node.IsKeyed ⟨.document, "", .map libraryEntries⟩ := by
  have hread : Node.IsKeyed ⟨.method, "get", .map [(.str "description", .str "Reads")]⟩ :=
    .intro (List.forall_mem_nil _) (List.forall_mem_nil _)
  have hitem : Node.IsKeyed
      ⟨.resourceType, "item", .map [(.str "get?", .map [(.str "description", .str "Reads")])]⟩ :=
    .intro (List.forall_mem_nil _) (List.forall_mem_singleton.mpr hread)
  refine .intro (List.forall_mem_nil _) (List.forall_mem_cons.mpr ⟨hitem,
    List.forall_mem_cons.mpr ⟨hitem, List.forall_mem_singleton.mpr ?_⟩⟩)
  exact .intro (List.forall_mem_nil _) (List.forall_mem_singleton.mpr (bookNode_isKeyed _))

theorem library_keyed : Node.IsKeyed ⟨.document, "", .map libraryEntries⟩ ∧
    ∃ a, Api.build "<string>" "RAML 1.0" libraryEntries = .ok a ∧ a.located.length = 2 ∧
      ∀ l ∈ a.located, ∀ e ∈ l.resource.methods, e.2.IsKeyedUnder e.1 := by
  obtain ⟨a, ha, hlength⟩ : ∃ a, Api.build "<string>" "RAML 1.0" libraryEntries = .ok a ∧
      a.located.length = 2 :=
    toOption_map_eq_some.mp (by decide +kernel)
  obtain ⟨-, -, hlocated⟩ := keyed_of_build libraryEntries_isKeyed ha
  exact ⟨libraryEntries_isKeyed, a, ha, hlength, fun l hl => (hlocated l hl).1⟩

/-- A method that says that it is one on another verb, and its resource type. -/
def misnamedEntries : List (Value × Value) := [
  (.str "resourceTypes", .map [(.str "item", .map [
    (.str "get", .map [(.str "description", .str "Reads")])])]),
  (.str "/books", .map [(.str "type", .str "item"),
    (.str "get", .map [(.str "name", .str "POST")])])]

/-- The method stands under one verb and has the name of another, and the template for the verb that
it stands under is not merged into it. -/
theorem post_under_get :
    (Api.build "<string>" "RAML 1.0" misnamedEntries >>= Api.resolve).toOption.map (fun a =>
      a.located.flatMap fun l => l.resource.methods.map fun e =>
        (e.1, e.2.name, e.2.description)) = some [("get", "POST", none)] := by
  decide +kernel

end Resolution
end Raml
