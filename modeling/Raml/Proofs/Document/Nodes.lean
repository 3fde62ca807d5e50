import Raml.Proofs.Document.Facets

/-!
# The nodes of a document and their keys

Methods, responses and resources go by the keys they stand under. A `Node` is a node with the key
that it has and with the role that it plays, and `Node.members` finds those in it, wherever a
document may put them: a method stands under its verb, or in a mapping of methods.

A node may also say itself what it goes by. It is keyed (`Node.IsKeyed`) if it says nothing else
than its key, and so do all nodes in it. Reading moves entries to the fields that they belong to;
every entry of a field comes from one that stood there or was moved there with its key, so
the fields of a keyed node are keyed too (`Fields.AreKeyed`).
-/

namespace Raml

/-! ## Nodes -/

/-- What a node is read as. Those on the way to an entity that goes by its key have a role. -/
inductive Role where
  | document
  | library
  | resource
  | resourceType
  | method
  | trait
  | scheme
  | description
  | response
  deriving DecidableEq, Repr

/-- What stands in a field. -/
inductive Place where
  /-- A node, which goes by the key. -/
  | node (role : Role) (key : String)
  /-- A mapping of nodes under their keys. -/
  | table (role : Role)
  /-- Nothing that leads to an entity with a key. -/
  | other
  deriving DecidableEq, Repr

namespace Role

/-- What stands in the fields of declarations. -/
def declared (field : String) : Place :=
  if field = "traits" then .table .trait
  else if field = "resourceTypes" ∨ field = "resource_types" then .table .resourceType
  else if field = "securitySchemes" ∨ field = "security_schemes" then .table .scheme
  else if field = "libraries" then .table .library
  else .other

/-- What stands in a field of a node. -/
def place : Role → String → Place
  | .document, field =>
    if Resource.isPath field then .node .resource field
    else if field = "resources" then .table .resource
    else declared field
  | .library, field => declared field
  | .resource, field =>
    if Resource.isPath field then .node .resource field
    else if field = "nested" then .table .resource
    else if field = "methods" then .table .method
    else if field ∈ verbs then .node .method field
    else .other
  | .resourceType, field =>
    if field = "methods" ∨ field = "optional_methods" then .table .method
    else if field ∈ verbs then .node .method field
    else match ResourceType.optionalVerbOf? field with
      | some verb => .node .method verb
      | none => .other
  | .method, field | .trait, field | .description, field =>
    if field = "responses" then .table .response else .other
  | .scheme, field =>
    if field = "describedBy" ∨ field = "described_by" then .node .description field else .other
  | .response, _ => .other

/-- The field in which a node can say what it goes by. -/
def ownField? : Role → Option String
  | .resource => some "uri"
  | .method => some "name"
  | .response => some "code"
  | _ => none

/-- What a node under a key goes by. -/
def identity : Role → String → String
  | .method, key => Method.nameOfKey key
  | _, key => key

end Role

/-- The texts that a key can become; bytes are spelled out in some places and quoted in others. -/
def Value.keyTexts (k : Value) : List String := k.key :: (readText k).toOption.toList

/-- A node, with its role and its key. -/
structure Node where
  role : Role
  key : String
  value : Value

/-- The nodes in a field. -/
def Place.nodes : Place → Value → List Node
  | .node role key, v => [⟨role, key, v⟩]
  | .table role, v => v.entries.flatMap fun e => e.1.keyTexts.map fun key => ⟨role, key, e.2⟩
  | .other, _ => []

namespace Node

/-- The nodes in the fields of a node. -/
def members (n : Node) : List Node :=
  n.value.entries.flatMap fun e => (n.role.place e.1.key).nodes e.2

/-- The names by which a node says that it goes. -/
def ownNames (n : Node) : List String :=
  n.value.entries.flatMap fun e =>
    if n.role.ownField? = some e.1.key then (readText e.2).toOption.toList else []

/-- Whether a node, and every node in it, says nothing else than its key of what it goes by. -/
inductive IsKeyed : Node → Prop
  | intro {n : Node} (own : ∀ s ∈ n.ownNames, s = "" ∨ s = n.role.identity n.key)
      (members : ∀ m ∈ n.members, m.IsKeyed) : n.IsKeyed

end Node

/-! ## Fields -/

/-- Whether an entry of a node says nothing else than the key of the node of what that goes by, and
the nodes in it are keyed. -/
structure Role.EntryIsKeyed (role : Role) (key : String) (e : String × Value) : Prop where
  own : role.ownField? = some e.1 → ∀ s, readText e.2 = .ok s → s = "" ∨ s = role.identity key
  members : ∀ n ∈ (role.place e.1).nodes e.2, n.IsKeyed

/-- Whether all entries of fields are keyed. -/
def Fields.AreKeyed (role : Role) (key : String) (f : Fields) : Prop :=
  ∀ e ∈ f.entries, role.EntryIsKeyed key e

/-- Whether all nodes of a mapping are keyed. -/
def Value.TableIsKeyed (role : Role) (v : Value) : Prop :=
  ∀ e ∈ v.entries, ∀ key ∈ e.1.keyTexts, Node.IsKeyed ⟨role, key, e.2⟩

/-- A table is keyed if the nodes in it are. -/
theorem Place.forall_mem_table {role : Role} {v : Value} :
    (∀ n ∈ (Place.table role).nodes v, n.IsKeyed) ↔ v.TableIsKeyed role := by
  simp only [nodes, List.forall_mem_flatMap, List.forall_mem_map, Value.TableIsKeyed]

/-- A node is keyed if each of its entries is. -/
theorem Node.isKeyed_iff {role : Role} {key : String} {v : Value} : IsKeyed ⟨role, key, v⟩ ↔
    ∀ e ∈ v.entries, role.EntryIsKeyed key (e.1.key, e.2) := by
  constructor
  · rintro ⟨hown, hmembers⟩ e he
    constructor
    · intro hfield s hs
      refine hown s (List.mem_flatMap.mpr ⟨e, he, ?_⟩)
      rw [if_pos hfield, hs]
      exact List.mem_singleton_self s
    · exact fun n hn => hmembers n (List.mem_flatMap.mpr ⟨e, he, hn⟩)
  · intro h
    constructor
    · intro s hs
      obtain ⟨e, he, hs⟩ := List.mem_flatMap.mp hs
      split at hs
      · rename_i hfield
        refine (h e he).own hfield s ?_
        cases htext : readText e.2 <;> simp_all [Except.toOption]
      · cases hs
    · intro n hn
      obtain ⟨e, he, hn⟩ := List.mem_flatMap.mp hn
      exact (h e he).members n hn

section Members

variable {n : Node} {e : Value × Value} {child : Role} {key : String}

/-- A field that is the place of a node holds a member. -/
theorem Node.mem_members_of_node (he : e ∈ n.value.entries)
    (hplace : n.role.place e.1.key = .node child key) : ⟨child, key, e.2⟩ ∈ n.members := by
  refine List.mem_flatMap.mpr ⟨e, he, ?_⟩
  rw [hplace]
  exact List.mem_singleton_self _

/-- The entries of a field that is the place of a table are members under their keys. -/
theorem Node.mem_members_of_table (he : e ∈ n.value.entries)
    (hplace : n.role.place e.1.key = .table child) {c : Value × Value} (hc : c ∈ e.2.entries)
    (hkey : key ∈ c.1.keyTexts) : ⟨child, key, c.2⟩ ∈ n.members := by
  refine List.mem_flatMap.mpr ⟨e, he, ?_⟩
  rw [hplace]
  exact List.mem_flatMap.mpr ⟨c, hc, List.mem_map_of_mem hkey⟩

end Members

/-- There is nothing wrong with the keys of a node without entries. -/
theorem Node.isKeyed_of_entries_nil {role : Role} {key : String} {v : Value}
    (h : v.entries = []) : IsKeyed ⟨role, key, v⟩ := by
  rw [isKeyed_iff, h]
  exact List.forall_mem_nil _

/-- A node that does not count as given says nothing. -/
theorem Node.IsKeyed.orEmpty {role : Role} {key : String} {v : Value}
    (h : IsKeyed ⟨role, key, v⟩) : IsKeyed ⟨role, key, v.orEmpty⟩ := by
  rw [Value.orEmpty]
  split
  · exact h
  · exact isKeyed_of_entries_nil rfl

/-! ## Where the entries of fields come from -/

namespace Fields

variable {C : String × Value → Prop} {f : Fields}

/-- An entry that is added needs to be checked on its own. -/
theorem forall_mem_add {new : Value × Value} (hnew : C (new.1.key, new.2))
    (h : ∀ e ∈ f.entries, C e) : ∀ e ∈ (f.add new).entries, C e := by
  rw [add]
  split
  · exact h
  · split
    · exact h
    · intro e he
      rcases Table.of_mem_set he with rfl | he
      · exact hnew
      · exact h e he

/-- What holds of the entries of a mapping holds of the fields in it. -/
theorem forall_mem_of_ofEntries {es : List (Value × Value)} (h : ∀ e ∈ es, C (e.1.key, e.2))
    (hf : ofEntries es = .ok f) : ∀ e ∈ f.entries, C e := by
  obtain ⟨-, own, -, rfl⟩ := ofEntries_eq_ok.mp hf
  have hfold : ∀ g : Fields, (∀ e ∈ g.entries, C e) → ∀ e ∈ (es.foldl add g).entries, C e := by
    clear hf
    induction es with
    | nil => exact fun _ hg => hg
    | cons e es ih =>
      rw [List.forall_mem_cons] at h
      exact fun g hg => ih h.2 _ (forall_mem_add h.1 hg)
  exact hfold _ (List.forall_mem_nil _)

theorem forall_mem_listify {names : List String} (hnames : ∀ n ∈ names, ∀ v, C (n, v))
    (h : ∀ e ∈ f.entries, C e) : ∀ e ∈ (f.listify names).entries, C e := by
  rw [entries_listify, List.forall_mem_map]
  intro e he
  by_cases hn : names.contains e.1 = true
  · exact hnames e.1 (List.contains_iff_mem.mp hn) _
  · rw [wrapped.eq_def, if_neg hn]
    exact h e he

/-- Where the entries come from that were moved into a mapping. -/
theorem forall_mem_gather {R : Value × Value → Prop} {key : String → Option String}
    {own : List (Value × Value)} {t : Table Value} (hown : ∀ e ∈ own, R e)
    (h : ∀ e ∈ t, ∀ k, key e.1 = some k → R (.str k, e.2.orEmpty)) :
    ∀ e ∈ gather key own t, R e := by
  rw [gather]
  induction t generalizing own with
  | nil => exact hown
  | cons e t ih =>
    rw [List.forall_mem_cons] at h
    rw [List.foldl_cons]
    refine ih ?_ h.2
    split
    · rename_i k hk
      exact Value.forall_mem_insert_str (h.1 k hk) hown
    · exact hown

theorem of_mem_without {names : List String} {isKey : String → Bool} {t : Table Value}
    {e : String × Value} (h : e ∈ without names isKey t) :
    e ∈ t ∧ e.1 ∉ names ∧ isKey e.1 = false := by
  obtain ⟨hmem, hkept⟩ := List.mem_filter.mp h
  simp only [Bool.and_eq_true, Bool.not_eq_true', List.contains_eq_mem, decide_eq_false_iff_not]
    at hkept
  exact ⟨hmem, hkept⟩

theorem mem_of_findSome? {names : List String} {look : String → Option Value} {n : String}
    {v : Value} (hlook : ∀ n v, look n = some v → f.entries.get? n = some v)
    (h : (names.findSome? fun n => (look n).map (n, ·)) = some (n, v)) :
    (n, v) ∈ f.entries ∧ n ∈ names := by
  obtain ⟨m, hm, hv⟩ := List.exists_of_findSome?_eq_some h
  obtain ⟨w, hw, heq⟩ := Option.map_eq_some_iff.mp hv
  obtain ⟨rfl, rfl⟩ := Prod.mk.inj heq
  exact ⟨Table.mem_of_get? (hlook m w hw), hm⟩

/-- What a field holds was read from one of its entries, if anything was. -/
theorem of_collection_eq_good {α : Type} {names : List String} {empty a : α} {read : Reader α}
    (h : f.collection names empty read = .good a) :
    a = empty ∨ ∃ e ∈ f.entries, e.1 ∈ names ∧ read e.2 = .good a := by
  rw [collection] at h
  split at h
  · rename_i n v hgiven
    obtain ⟨hmem, hn⟩ := mem_of_findSome? (fun _ _ h => (Option.filter_eq_some_iff.mp h).1) hgiven
    exact .inr ⟨(n, v), hmem, hn, Checked.under_eq_good.mp h⟩
  · cases h
    exact .inl rfl

/-- A field with a default holds the default or what was read. -/
theorem of_withDefault_eq_good {α : Type} {names : List String} {fallback a : α} {read : Reader α}
    (h : f.withDefault names fallback read = .good a) :
    a = fallback ∨ ∃ e ∈ f.entries, e.1 ∈ names ∧ read e.2 = .good a := by
  rw [withDefault] at h
  split at h
  · rename_i n v hfind
    obtain ⟨hmem, hn⟩ := mem_of_findSome? (fun _ _ h => h) hfind
    exact .inr ⟨(n, v), hmem, hn, Checked.under_eq_good.mp h⟩
  · cases h
    exact .inl rfl

end Fields

/-! ## Entries where they belong -/

open Fields (gather mappingOf without)

theorem Value.keyTexts_str (n : String) : (Value.str n).keyTexts = [n, n] := rfl

section Arranged

variable {role : Role} {key : String} {f f' : Fields}

/-- An entry that neither names its node nor leads to another one. -/
theorem Role.entryIsKeyed_of_other {n : String} (hown : role.ownField? ≠ some n)
    (hplace : role.place n = .other) (v : Value) : role.EntryIsKeyed key (n, v) := by
  refine ⟨fun h => absurd h hown, ?_⟩
  rw [hplace]
  exact List.forall_mem_nil _

theorem Role.entryIsKeyed_table {n : String} {child : Role} {v : Value}
    (hown : role.ownField? ≠ some n) (hplace : role.place n = .table child)
    (h : v.TableIsKeyed child) : role.EntryIsKeyed key (n, v) := by
  refine ⟨fun h => absurd h hown, ?_⟩
  rw [hplace]
  exact Place.forall_mem_table.mpr h

theorem Role.EntryIsKeyed.table {e : String × Value} {child : Role} (h : role.EntryIsKeyed key e)
    (hplace : role.place e.1 = .table child) : e.2.TableIsKeyed child := by
  have hmembers := h.members
  rw [hplace] at hmembers
  exact Place.forall_mem_table.mp hmembers

theorem Role.EntryIsKeyed.node {e : String × Value} {child : Role} {k : String}
    (h : role.EntryIsKeyed key e) (hplace : role.place e.1 = .node child k) :
    Node.IsKeyed ⟨child, k, e.2⟩ := by
  have hmembers := h.members
  rw [hplace] at hmembers
  exact hmembers _ (List.mem_singleton_self _)

theorem Fields.AreKeyed.listify (hf : f.AreKeyed role key) (names : List String)
    (hnames : ∀ n ∈ names, role.ownField? ≠ some n ∧ role.place n = .other) :
    (f.listify names).AreKeyed role key :=
  Fields.forall_mem_listify
    (fun n hn v => Role.entryIsKeyed_of_other (hnames n hn).1 (hnames n hn).2 v) hf

/-- Codes stay the keys of their responses when they become texts. -/
theorem Fields.AreKeyed.nameCodes (hf : f.AreKeyed role key)
    (hown : role.ownField? ≠ some "responses")
    (hplace : role.place "responses" = .table .response) :
    (Response.nameCodes f).AreKeyed role key := by
  rw [Fields.AreKeyed, Fields.entries_nameCodes, List.forall_mem_map]
  rintro ⟨n, v⟩ he
  -- only the responses are renamed, and their codes are the texts of their keys
  by_cases hn : n = "responses"
  · subst hn
    have htable : v.TableIsKeyed .response := (hf _ he).table hplace
    refine Role.entryIsKeyed_table hown hplace ?_
    cases v with
    | map es =>
      refine Value.forall_mem_mapOf_str (List.forall_mem_map.mpr fun e hmem => ⟨⟨_, rfl⟩, ?_⟩)
      intro k hk
      rw [Value.keyTexts_str, List.mem_pair, or_self] at hk
      subst hk
      exact htable e hmem _ (List.mem_cons_self ..)
    | _ => exact htable
  · rw [Fields.coded.eq_def, if_neg (by simpa using hn)]
    exact hf _ he

/-- Turning the keys of responses into texts keeps the fields keyed. -/
theorem Fields.AreKeyed.withCodes (hf : f.AreKeyed role key)
    (hown : role.ownField? ≠ some "responses")
    (hplace : role.place "responses" = .table .response) {f' : Fields}
    (h : Response.withCodes f = .ok f') : f'.AreKeyed role key :=
  (Fields.withCodes_eq_ok.mp h).2 ▸ hf.nameCodes hown hplace

/-- The mapping under a name, from which nodes go to where they belong. -/
theorem Fields.AreKeyed.mappingOf {n : String} {child : Role} {own : List (Value × Value)}
    (hf : f.AreKeyed role key) (hplace : role.place n = .table child)
    (h : mappingOf n (f.entries.get? n) = .ok own) : (Value.map own).TableIsKeyed child := by
  cases hget : f.entries.get? n with
  | none =>
    rw [hget] at h
    cases h
    exact List.forall_mem_nil _
  | some v =>
    have htable : v.TableIsKeyed child := (hf _ (Table.mem_of_get? hget)).table hplace
    rw [hget] at h
    cases v with
    | null =>
      cases h
      exact List.forall_mem_nil _
    | map es =>
      cases h
      exact htable
    | _ => cases h

/-- The mapping into which nodes were moved that stood among the fields. -/
theorem Fields.AreKeyed.gather {child : Role} {own : List (Value × Value)}
    {keyOf : String → Option String} (hf : f.AreKeyed role key)
    (hown : (Value.map own).TableIsKeyed child)
    (hplace : ∀ n k, keyOf n = some k → role.place n = .node child k) :
    (Value.map (gather keyOf own f.entries)).TableIsKeyed child := by
  refine Fields.forall_mem_gather hown fun e he k hk k' hk' => ?_
  rw [Value.keyTexts_str, List.mem_pair, or_self] at hk'
  exact hk' ▸ ((hf e he).node (hplace e.1 k hk)).orEmpty

end Arranged

end Raml
