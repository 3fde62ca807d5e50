import Raml.Proofs.Document.Nodes

/-!
# Entities that go by their keys

What a node says of its own name is kept, and only a node that says nothing gets the name of its
key. So where nodes say nothing else than their keys, methods have the names of their verbs,
responses their codes and resources their paths: reader by reader, and by induction on the keyed
node through the libraries and the resources of a document (`isKeyed_of_build`).
-/

namespace Raml

/-! ## What goes by its key -/

/-- Whether a method goes by its key, and so do its responses. -/
structure Method.IsKeyedUnder (key : String) (m : Method) : Prop where
  name : m.name = nameOfKey key
  responses : ∀ e ∈ m.responses, e.2.code = e.1

/-- Whether the methods of a resource type go by their keys. -/
structure ResourceType.IsKeyed (t : ResourceType) : Prop where
  methods : ∀ e ∈ t.methods, e.2.IsKeyedUnder e.1
  optionalMethods : ∀ e ∈ t.optionalMethods, e.2.IsKeyedUnder e.1

/-- Whether all methods and responses in declarations go by their keys. -/
structure Declarations.IsKeyed (d : Declarations) : Prop where
  traits : ∀ e ∈ d.traits, ∀ r ∈ e.2.method.responses, r.2.code = r.1
  resourceTypes : ∀ e ∈ d.resourceTypes, e.2.IsKeyed
  securitySchemes : ∀ e ∈ d.securitySchemes, ∀ r ∈ e.2.describedBy.responses, r.2.code = r.1

/-- Whether all methods of resources go by their keys, and the resources under paths, and so do all
below them. -/
inductive Resource.AreKeyed : List (String × Resource) → Prop
  | intro {rs : List (String × Resource)} (uri : ∀ e ∈ rs, isPath e.1 = true → e.2.uri = e.1)
      (methods : ∀ e ∈ rs, ∀ m ∈ e.2.methods, m.2.IsKeyedUnder m.1)
      (nested : ∀ e ∈ rs, AreKeyed e.2.nested) : AreKeyed rs

/-! ## Reading -/

namespace Reader

variable {α : Type} {role : Role} {P : String → α → Prop} {read : Reader α}

/-- Whether `P` holds of what is read of keyed nodes in a mapping and of their keys. -/
def Keys (role : Role) (P : String → α → Prop) (readTable : Reader (Table α)) : Prop :=
  ∀ ⦃v t⦄, v.TableIsKeyed role → readTable v = .good t → ∀ e ∈ t, P e.1 e.2

theorem mem_keyTexts_of_text {k : Value} {key : String} (h : text k = .good key) :
    key ∈ k.keyTexts := by
  refine List.mem_cons_of_mem _ ?_
  rw [text] at h
  cases hread : readText k with
  | ok s =>
    rw [hread] at h
    cases h
    exact List.mem_singleton_self _
  | error m =>
    rw [hread] at h
    cases h

/-- A table is keyed if each value is read as what its key says. -/
theorem keys_table (h : ∀ key v a, Node.IsKeyed ⟨role, key, v⟩ → read v = .good a → P key a) :
    Keys role P (table read) := by
  intro v t hv ht
  cases v with
  | map entries =>
    obtain ⟨es, hes, rfl⟩ := Checked.map_eq_good.mp ht
    refine Table.forall_mem_ofEntries fun e he => ?_
    obtain ⟨c, hc, hkey, hread⟩ :=
      of_mem_entries (x := fun e : Value × Value => read e.2) hes e he
    exact h _ _ _ (hv c hc _ (mem_keyTexts_of_text hkey)) hread
  | _ => cases ht

theorem keys_adopted {name : α → String} {rename : String → α → α}
    (h : ∀ key v a, Node.IsKeyed ⟨role, key, v⟩ → read v = .good a →
      P key (if (name a).isEmpty then rename key a else a)) :
    Keys role P fun v => (table read v).map (adoptNames name rename) := by
  intro v t hv ht
  obtain ⟨t', ht', rfl⟩ := Checked.map_eq_good.mp ht
  rw [adoptNames, List.forall_mem_map]
  exact keys_table (P := fun key a => P key (if (name a).isEmpty then rename key a else a)) h hv ht'

end Reader

namespace Fields.AreKeyed

variable {α : Type} {role child : Role} {key : String} {f : Fields} (hf : f.AreKeyed role key)

include hf

/-- A keyed node says nothing of its name, or that it goes by its key. -/
theorem own {field s : String} (hfield : role.ownField? = some field)
    (h : f.withDefault [field] "" Reader.text = .good s) : s = "" ∨ s = role.identity key := by
  rcases of_withDefault_eq_good h with rfl | ⟨e, he, hname, hread⟩
  · exact .inl rfl
  · obtain rfl := List.mem_singleton.mp hname
    refine (hf e he).own hfield s ?_
    rw [Reader.text] at hread
    cases htext : readText e.2 with
    | ok s' =>
      rw [htext] at hread
      cases hread
      rfl
    | error m =>
      rw [htext] at hread
      cases hread

/-- What is read under a field of a node is keyed if the node is. -/
theorem table {P : String → α → Prop} {read : Reader (Table α)} {names : List String} {t : Table α}
    (hread : Reader.Keys child P read) (hplace : ∀ n ∈ names, role.place n = .table child)
    (h : f.collection names [] read = .good t) : ∀ e ∈ t, P e.1 e.2 := by
  rcases of_collection_eq_good h with rfl | ⟨e, he, hname, hgood⟩
  · exact List.forall_mem_nil _
  · exact hread ((hf e he).table (hplace e.1 hname)) hgood

end Fields.AreKeyed

namespace EntityForm

variable {α : Type} {form : EntityForm α} {role : Role} {key : String} {a : α}

/-- Whether entries that are moved to their places stay keyed. -/
def KeepsKeys (role : Role) (form : EntityForm α) : Prop :=
  ∀ ⦃key f f'⦄, f.AreKeyed role key → form.arrange f = .ok f' → f'.AreKeyed role key

theorem areKeyed_of_ofEntries (hform : form.KeepsKeys role) {es : List (Value × Value)}
    (hes : ∀ e ∈ es, role.EntryIsKeyed key (e.1.key, e.2)) (h : form.ofEntries es = .good a) :
    ∃ f, f.AreKeyed role key ∧ form.fields f = .good a := by
  rw [ofEntries] at h
  split at h
  · rename_i f hf
    cases hentries : Fields.ofEntries es with
    | error m =>
      rw [hentries] at hf
      cases hf
    | ok f₀ =>
      rw [hentries] at hf
      exact ⟨f, hform (Fields.forall_mem_of_ofEntries hes hentries) hf, h⟩
  · cases h

/-- The fields of a node are keyed if the node is, unless there is a shorthand for it. -/
theorem areKeyed_of_read (hform : form.KeepsKeys role) (hshorthand : form.shorthand = noShorthand)
    {v : Value} (hv : Node.IsKeyed ⟨role, key, v⟩) (h : form.read v = .good a) :
    ∃ f, f.AreKeyed role key ∧ form.fields f = .good a := by
  have hentries := Node.isKeyed_iff.mp hv
  cases v with
  | null => exact areKeyed_of_ofEntries hform hentries h
  | map es => exact areKeyed_of_ofEntries hform hentries h
  | str s =>
    rw [read, hshorthand] at h
    cases h
  | _ => cases h

end EntityForm

/-- What has no name gets that of its key, so that it has that name in the end. -/
theorem name_of_adopted {α : Type} (name : α → String) (rename : String → α → α)
    {key identity : String} {a : α} (h : name a = "" ∨ name a = identity)
    (hrename : name (rename key a) = identity) :
    name (if (name a).isEmpty then rename key a else a) = identity := by
  split
  · exact hrename
  · rename_i hname
    exact h.resolve_left (by simpa using hname)

/-! ## Methods and what is declared -/

/-- The responses of a document carry their keys as codes. -/
theorem Response.keys_readTable : Reader.Keys .response (fun key r => r.code = key) readTable := by
  refine Reader.keys_adopted fun key v r hv h => ?_
  obtain ⟨f, hf, h⟩ := EntityForm.areKeyed_of_read (fun _ _ _ hf h => Except.ok.inj h ▸ hf) rfl hv h
  obtain ⟨-, hcode, -⟩ := ofFields_eq_good.mp h
  exact name_of_adopted code (fun key r => { r with code := key }) (hf.own rfl hcode) rfl

/-- The fields of a method or of a trait stay keyed when they are moved. -/
theorem Method.areKeyed_arrange {role : Role} {key : String} {f f' : Fields}
    (hrole : role = .method ∨ role = .trait) (hf : f.AreKeyed role key)
    (h : arrange f = .ok f') : f'.AreKeyed role key := by
  rcases hrole with rfl | rfl <;> exact (hf.listify _ (by decide)).withCodes (by decide) rfl h

/-- The methods of a document carry their keys as names. -/
theorem Method.keys_readTable :
    Reader.Keys .method (fun key m => m.IsKeyedUnder key) readTable := by
  refine Reader.keys_adopted fun key v m hv h => ?_
  obtain ⟨f, hf, h⟩ := EntityForm.areKeyed_of_read
    (fun _ _ _ => areKeyed_arrange (.inl rfl)) rfl hv h
  obtain ⟨-, hname, -, -, -, -, -, hresponses, -⟩ := ofFields_eq_good.mp h
  have hkeyed := hf.table Response.keys_readTable (by decide) hresponses
  refine ⟨name_of_adopted name (fun key m => { m with name := nameOfKey key })
    (hf.own rfl hname) rfl, ?_⟩
  split <;> exact hkeyed

theorem Trait.keys_readTable :
    Reader.Keys .trait (fun _ t => ∀ r ∈ t.method.responses, r.2.code = r.1) readTable := by
  refine Reader.keys_adopted fun key v t hv h => ?_
  obtain ⟨f, hf, h⟩ := EntityForm.areKeyed_of_read
    (fun _ _ _ => Method.areKeyed_arrange (.inr rfl)) rfl hv h
  obtain ⟨hmethod, -⟩ := fields_eq_good.mp h
  obtain ⟨-, -, -, -, -, -, -, hresponses, -⟩ := Method.ofFields_eq_good.mp hmethod
  have hkeyed := hf.table Response.keys_readTable (by decide) hresponses
  split <;> exact hkeyed

namespace ResourceType

/-- A verb is the place of a method. -/
theorem place_of_verbOf? {n verb : String} (h : verbOf? n = some verb) :
    Role.resourceType.place n = .node .method verb ∧
      Role.resource.place n = .node .method verb := by
  have hverbs : ∀ n ∈ verbs, Role.resourceType.place n = .node .method n ∧
      Role.resource.place n = .node .method n := by decide
  rw [verbOf?] at h
  split at h
  · rename_i hn
    obtain rfl := Option.some.inj h
    exact hverbs n (List.contains_iff_mem.mp hn)
  · cases h

theorem place_of_optionalVerbOf? {n verb : String} (h : optionalVerbOf? n = some verb) :
    Role.resourceType.place n = .node .method verb := by
  have hnone : ∀ n ∈ "methods" :: "optional_methods" :: verbs, optionalVerbOf? n = none := by
    decide
  have hn : n ∉ "methods" :: "optional_methods" :: verbs := fun hmem => by
    rw [hnone n hmem] at h
    cases h
  simp only [List.mem_cons, not_or] at hn
  have hverbs : n ∉ verbs := by simpa [verbs] using hn.2.2
  rw [Role.place, if_neg (not_or.mpr ⟨hn.1, hn.2.1⟩), if_neg hverbs, h]

theorem keepsKeys : form.KeepsKeys .resourceType := by
  intro key f f' hf h
  have hf := hf.listify ["is", "securedBy"] (by decide)
  obtain ⟨methods, hmethods, h⟩ := bind_eq_ok.mp h
  obtain ⟨optionals, hoptionals, h⟩ := bind_eq_ok.mp h
  cases pure_eq_ok.mp h
  intro e he
  rcases List.mem_append.mp he with he | he
  · exact hf e (Fields.of_mem_without he).1
  · rcases List.mem_pair.mp he with rfl | rfl
    · exact Role.entryIsKeyed_table (by decide) rfl
        (hf.gather (hf.mappingOf rfl hmethods) fun _ _ hverb => (place_of_verbOf? hverb).1)
    · exact Role.entryIsKeyed_table (by decide) rfl
        (hf.gather (hf.mappingOf rfl hoptionals) fun _ _ => place_of_optionalVerbOf?)

theorem keys_readTable : Reader.Keys .resourceType (fun _ t => t.IsKeyed) readTable := by
  refine Reader.keys_adopted fun key v t hv h => ?_
  obtain ⟨f, hf, h⟩ := EntityForm.areKeyed_of_read keepsKeys rfl hv h
  obtain ⟨-, -, -, -, -, -, -, -, hmethods, hoptionals⟩ := ofFields_eq_good.mp h
  have hkeyed : t.IsKeyed := ⟨hf.table Method.keys_readTable (by decide) hmethods,
    hf.table Method.keys_readTable (by decide) hoptionals⟩
  split
  · exact ⟨hkeyed.methods, hkeyed.optionalMethods⟩
  · exact hkeyed

end ResourceType

theorem DescribedBy.responses_of_read {key : String} {v : Value} {d : DescribedBy}
    (hv : Node.IsKeyed ⟨.description, key, v⟩) (h : read v = .good d) :
    ∀ r ∈ d.responses, r.2.code = r.1 := by
  obtain ⟨f, hf, h⟩ := EntityForm.areKeyed_of_read
    (fun _ _ _ hf => hf.withCodes (by decide) rfl) rfl hv h
  obtain ⟨-, -, -, -, hresponses⟩ := ofFields_eq_good.mp h
  exact hf.table Response.keys_readTable (by decide) hresponses

theorem SecurityScheme.keys_readTable :
    Reader.Keys .scheme (fun _ s => ∀ r ∈ s.describedBy.responses, r.2.code = r.1) readTable := by
  refine Reader.keys_adopted fun key v s hv h => ?_
  obtain ⟨f, hf, h⟩ := EntityForm.areKeyed_of_read (fun _ _ _ hf h => Except.ok.inj h ▸ hf) rfl hv h
  obtain ⟨-, -, -, -, -, hdescribed, -⟩ := ofFields_eq_good.mp h
  have hkeyed : ∀ r ∈ s.describedBy.responses, r.2.code = r.1 := by
    rcases Fields.of_collection_eq_good hdescribed with heq | ⟨e, he, hname, hread⟩
    · rw [heq]
      exact List.forall_mem_nil _
    · have hplace : ∀ n ∈ ["describedBy", "described_by"],
          Role.scheme.place n = .node .description n := by decide
      exact DescribedBy.responses_of_read ((hf e he).node (hplace e.1 hname)) hread
  split <;> exact hkeyed

theorem Declarations.isKeyed_of_ofFields {role : Role} {key : String} {f : Fields}
    {d : Declarations} (hrole : role = .document ∨ role = .library) (hf : f.AreKeyed role key)
    (h : ofFields f = .good d) : d.IsKeyed := by
  obtain ⟨-, htraits, hresourceTypes, -, hschemes, -⟩ := ofFields_eq_good.mp h
  rcases hrole with rfl | rfl <;>
    exact ⟨hf.table Trait.keys_readTable (by decide) htraits,
      hf.table ResourceType.keys_readTable (by decide) hresourceTypes,
      hf.table SecurityScheme.keys_readTable (by decide) hschemes⟩

/-! ## Libraries -/

namespace Library

/-- Whether everything goes by its key that a library declares or one that it uses. -/
def IsKeyed (l : Library) : Prop :=
  l.declared.IsKeyed ∧ ∀ own k, Within l.libraries own k → k.declared.IsKeyed

theorem isKeyed_of_field {libraries : List (Value × Checked Library)} {f : Fields}
    {t : Table Library} (hlibraries : ∀ b ∈ libraries, ∀ l, b.2 = .good l → l.IsKeyed)
    (h : field libraries f = .good t) : ∀ own k, Within t own k → k.declared.IsKeyed := by
  have hkeyed : ∀ e ∈ t, e.2.IsKeyed := fun e he => by
    obtain ⟨b, hb, hgood⟩ := (of_field h).2 e he
    exact hlibraries b hb e.2 hgood
  intro own k hk
  cases hk with
  | here hmem => exact (hkeyed _ hmem).1
  | through hmem hk => exact (hkeyed _ hmem).2 own k hk

theorem keepsKeys (libraries : List (Value × Checked Library)) :
    (form libraries).KeepsKeys .library := fun _ _ _ hf h => Except.ok.inj h ▸ hf

/-- A library that was read is keyed, and so are the libraries in it. -/
theorem isKeyed_of_ofEntries {libraries : List (Value × Checked Library)} {key : String}
    {es : List (Value × Value)} {l : Library}
    (hlibraries : ∀ b ∈ libraries, ∀ l, b.2 = .good l → l.IsKeyed)
    (hes : ∀ e ∈ es, Role.library.EntryIsKeyed key (e.1.key, e.2))
    (h : (form libraries).ofEntries es = .good l) : l.IsKeyed := by
  obtain ⟨f, hf, h⟩ := EntityForm.areKeyed_of_ofEntries (keepsKeys libraries) hes h
  obtain ⟨-, hdeclared, hfield, -⟩ := ofFields_eq_good.mp h
  exact ⟨Declarations.isKeyed_of_ofFields (.inr rfl) hf hdeclared,
    isKeyed_of_field hlibraries hfield⟩

/-- The induction is on the keyed node, which holds those of the libraries in it. -/
theorem isKeyed_of_read {n : Node} (hn : n.IsKeyed) (hrole : n.role = .library) {l : Library}
    (h : read n.value = .good l) : l.IsKeyed := by
  induction hn generalizing l with
  | @intro n own members ih =>
    obtain ⟨role, key, v⟩ := n
    obtain rfl : role = .library := hrole
    have hentries := Node.isKeyed_iff.mp (.intro own members)
    cases v with
    | null =>
      rw [read] at h
      exact isKeyed_of_ofEntries (List.forall_mem_nil _) hentries h
    | map es =>
      rw [read] at h
      refine isKeyed_of_ofEntries (gathers_read.forall_mem_read.mpr fun c hc l hl => ?_) hentries h
      obtain ⟨e, he, hkey, hc⟩ := Value.of_mem_membersUnder hc
      have hplace : Role.library.place e.1.key = .table .library := by
        rw [hkey]
        rfl
      exact ih _ (Node.mem_members_of_table he hplace hc (List.mem_cons_self ..)) rfl hl
    | _ => simp [read, notLibrary, Checked.fail] at h

end Library

/-! ## Numbers are no paths -/

namespace Decimal

theorem slash_notMem_digitsOf (n : Nat) : '/' ∉ digitsOf n := fun h => by
  have hdigit := Nat.isDigit_of_mem_toDigits (by decide) (by decide) h
  revert hdigit
  decide

theorem slash_notMem_positional {digits : List Char} (h : '/' ∉ digits) (whole : Int) :
    '/' ∉ positional digits whole := by
  rw [positional]
  split
  · simp [h]
  · dsimp only
    split
    · simp [h]
    · have htake : '/' ∉ digits.take whole.toNat := fun hmem => h (List.mem_of_mem_take hmem)
      have hdrop : '/' ∉ digits.drop whole.toNat := fun hmem => h (List.mem_of_mem_drop hmem)
      simp [htake, hdrop]

theorem slash_notMem_exponentText (e : Int) : '/' ∉ exponentText e := by
  have hdigits := slash_notMem_digitsOf e.natAbs
  rw [exponentText]
  split <;> split <;> simp [hdigits]

theorem slash_notMem_scientific {digits : List Char} (h : '/' ∉ digits) (e : Int) :
    '/' ∉ scientific .plain digits e := by
  have hexponent := slash_notMem_exponentText e
  rw [scientific.eq_def]
  split <;> simp_all [Layout.plain]

/-- The text of a double holds no slash, so it is no path. -/
theorem slash_notMem_ofFloat (x : Float) : '/' ∉ (ofFloat .plain x).toList := by
  rw [ofFloat]
  split
  · decide
  · decide
  · decide
  · rename_i b _
    have hdigits := slash_notMem_digitsOf (ofBinary b).digits
    have hpositional := slash_notMem_positional hdigits
    have hscientific := slash_notMem_scientific hdigits
    rw [String.toList_ofList, write]
    split <;> split <;> simp [hpositional, hscientific]

end Decimal

theorem Int.slash_notMem_toString (n : Int) : '/' ∉ (toString n).toList := by
  have hdigits : ∀ m, '/' ∉ Nat.toDigits 10 m := Decimal.slash_notMem_digitsOf
  cases n with
  | ofNat m => simpa [Int.toString_eq_repr, Int.repr, Nat.repr] using hdigits m
  | negSucc m => simpa [Int.toString_eq_repr, Int.repr, Nat.repr] using hdigits (m + 1)

/-- A key that is a path is a text or bytes, and no other key is the same. -/
theorem Value.eq_of_same_of_isPath {k k' : Value} {path : String} (hsame : k.same k' = true)
    (htext : Reader.text k = .good path) (hpath : Resource.isPath path = true) : k' = k := by
  have hslash : '/' ∈ path.toList := List.mem_of_head? (by simpa [Resource.isPath] using hpath)
  cases k with
  | str s => cases k' <;> simp_all [same]
  | bytes bs => cases k' <;> simp_all [same]
  | int n =>
    obtain ⟨-, hn⟩ := ite_error_eq_ok.mp (Checked.ofExcept_eq_good.mp htext)
    cases hn
    exact absurd hslash (Int.slash_notMem_toString n)
  | float x =>
    cases htext
    exact absurd hslash (Decimal.slash_notMem_ofFloat x)
  | _ => cases htext

/-! ## Resources -/

namespace Resource

/-- Whether a resource that is read under a key is named by it or not yet at all, and everything in
it goes by its key. -/
def IsReadUnder (key : String) (c : Checked Resource) : Prop :=
  ∀ r, c = .good r → (r.uri = "" ∨ r.uri = key) ∧ (∀ m ∈ r.methods, m.2.IsKeyedUnder m.1) ∧
    AreKeyed r.nested

/-- Whether a resource is read under its key, or under any if that is no path. -/
def EntryIsRead (b : Value × Checked Resource) : Prop :=
  (∃ key, IsReadUnder key b.2) ∧
    ∀ path, Reader.text b.1 = .good path → isPath path = true → IsReadUnder path b.2

theorem keepsKeys (nested : List (Value × Checked Resource)) :
    (form nested).KeepsKeys .resource := by
  intro key f f' hf h
  have hf := hf.listify ["is", "securedBy"] (by decide)
  obtain ⟨methods, hmethods, h⟩ := bind_eq_ok.mp h
  obtain ⟨_, -, h⟩ := bind_eq_ok.mp h
  cases pure_eq_ok.mp h
  intro e he
  rcases List.mem_append.mp he with he | he
  · exact hf e (Fields.of_mem_without he).1
  · rw [List.mem_singleton.mp he]
    exact Role.entryIsKeyed_table (by decide) rfl (hf.gather (hf.mappingOf rfl hmethods)
      fun _ _ hverb => (ResourceType.place_of_verbOf? hverb).2)

/-- Resources that are gathered from entries are keyed if each entry was read under its key. -/
theorem areKeyed_of_collect {nested : List (Value × Checked Resource)} {t : Table Resource}
    (hnested : ∀ b ∈ nested, EntryIsRead b) (h : collect nested = .good t) : AreKeyed t := by
  obtain ⟨es, hes, rfl⟩ := Checked.map_eq_good.mp h
  have hall : ∀ e ∈ Table.ofEntries es, (isPath e.1 = true → e.2.uri = "" ∨ e.2.uri = e.1) ∧
      (∀ m ∈ e.2.methods, m.2.IsKeyedUnder m.1) ∧ AreKeyed e.2.nested := by
    refine Table.forall_mem_ofEntries fun e he => ?_
    obtain ⟨b, hb, hkey, hgood⟩ := Reader.of_mem_entries hes e he
    -- only under a path has the key to be the one that the resource was read under
    obtain ⟨⟨key, hread⟩, hpath⟩ := hnested b hb
    exact ⟨fun hp => (hpath e.1 hkey hp e.2 hgood).1, (hread e.2 hgood).2⟩
  constructor
  · rw [adoptNames, List.forall_mem_map]
    intro e he hpath
    exact name_of_adopted uri (fun key r => { r with uri := key }) ((hall e he).1 hpath) rfl
  · rw [adoptNames, List.forall_mem_map]
    intro e he
    dsimp only
    split <;> exact (hall e he).2.1
  · rw [adoptNames, List.forall_mem_map]
    intro e he
    dsimp only
    split <;> exact (hall e he).2.2

/-- A resource is read with its key as its path. -/
theorem isReadUnder_ofEntries {nested : List (Value × Checked Resource)} {key : String}
    {es : List (Value × Value)} (hnested : ∀ b ∈ nested, EntryIsRead b)
    (hes : ∀ e ∈ es, Role.resource.EntryIsKeyed key (e.1.key, e.2)) :
    IsReadUnder key ((form nested).ofEntries es) := by
  intro r h
  obtain ⟨f, hf, h⟩ := EntityForm.areKeyed_of_ofEntries (keepsKeys nested) hes h
  obtain ⟨-, huri, -, -, hmethods, -, -, -, -, hbelow⟩ := ofFields_eq_good.mp h
  exact ⟨hf.own rfl huri, hf.table Method.keys_readTable (by decide) hmethods,
    areKeyed_of_collect hnested (Checked.under_eq_good.mp hbelow)⟩

theorem entryIsRead_of_same {k k' : Value} {c : Checked Resource} (hsame : k.same k' = true)
    (h : EntryIsRead (k', c)) : EntryIsRead (k, c) := by
  refine ⟨h.1, fun path htext hpath => h.2 path ?_ hpath⟩
  rw [Value.eq_of_same_of_isPath hsame htext hpath]
  exact htext

/-- The induction is on the keyed node, which holds those of the resources below it. -/
theorem isReadUnder_read {n : Node} (hn : n.IsKeyed) (hrole : n.role = .resource) :
    IsReadUnder n.key (read n.value) := by
  induction hn with
  | @intro n own members ih =>
    obtain ⟨role, key, v⟩ := n
    obtain rfl : role = .resource := hrole
    have hentries := Node.isKeyed_iff.mp (.intro own members)
    cases v with
    | null =>
      rw [read]
      exact isReadUnder_ofEntries (List.forall_mem_nil _) hentries
    | map es =>
      rw [read]
      have hlisted : ∀ b ∈ listed es, EntryIsRead b := by
        refine gathers_read.forall_mem_read.mpr fun c hc => ?_
        obtain ⟨e, he, hkey, hc⟩ := Value.of_mem_membersUnder hc
        have hplace : Role.resource.place e.1.key = .table .resource := by
          rw [hkey]
          rfl
        have hread : ∀ key ∈ c.1.keyTexts, IsReadUnder key (read c.2) := fun key hmem =>
          ih _ (Node.mem_members_of_table he hplace hc hmem) rfl
        exact ⟨⟨_, hread _ (List.mem_cons_self ..)⟩,
          fun path htext _ => hread path (Reader.mem_keyTexts_of_text htext)⟩
      have hbranches : ∀ b ∈ branches es, EntryIsRead b := by
        refine forall_mem_branches.mpr fun e he hpath => ?_
        have hplace : Role.resource.place e.1.key = .node .resource e.1.key := if_pos hpath
        have hunder : IsReadUnder e.1.key (if e.2.isTruthy then read e.2 else read .null) := by
          split
          · exact ih _ (Node.mem_members_of_node he hplace) rfl
          · exact isReadUnder_ofEntries (List.forall_mem_nil _) (List.forall_mem_nil _)
        refine ⟨⟨_, hunder⟩, fun path htext _ => ?_⟩
        cases htext
        exact hunder
      have hall : ∀ b ∈ listed es ++ branches es, EntryIsRead b :=
        List.forall_mem_append.mpr ⟨hlisted, hbranches⟩
      -- what stands under a path may come to stand under another key that is the same
      exact isReadUnder_ofEntries (Value.forall_mem_mapOf_of_same
        (fun b hb _ _ hsame _ => entryIsRead_of_same hsame (hall b hb)) hall) hentries
    | _ =>
      intro r h
      simp [read, notResource, Checked.fail] at h

end Resource

/-! ## The root document -/

namespace Api

theorem keepsKeys (libraries : List (Value × Checked Library)) :
    (form libraries).KeepsKeys .document := by
  intro key f f' hf h
  have hlisted := hf.listify ["securedBy", "protocols"] (by decide)
  change arrange f = .ok f' at h
  rw [arrange_eq] at h
  -- only `mediaType` may change its form, and its keys do not count
  have hf : Fields.AreKeyed .document key
      ⟨(f.listify ["securedBy", "protocols"]).entries.map fun e => (e.1, typed e.1 e.2), []⟩ := by
    refine List.forall_mem_map.mpr fun e he => ?_
    by_cases hn : e.1 = "mediaType"
    · rw [hn]
      exact Role.entryIsKeyed_of_other (by decide) (by decide) _
    · rw [typed_of_ne hn]
      exact hlisted e he
  obtain ⟨own, hown, h⟩ := bind_eq_ok.mp h
  cases pure_eq_ok.mp h
  intro e he
  -- an entry was there before, or is the one that the others are gathered in
  rcases List.mem_append.mp he with he | he
  · exact hf e (Fields.of_mem_without he).1
  · rw [List.mem_singleton.mp he]
    refine Role.entryIsKeyed_table (by decide) rfl (hf.gather (hf.mappingOf rfl hown) ?_)
    intro n k hpath
    split at hpath
    · rename_i hn
      rw [← Option.some.inj hpath]
      exact if_pos hn
    · cases hpath

/-- The resources of a document are keyed at every depth. -/
theorem keys_readResources : Reader.Keys .resource (fun key r =>
    (Resource.isPath key = true → r.uri = key) ∧ (∀ m ∈ r.methods, m.2.IsKeyedUnder m.1) ∧
      Resource.AreKeyed r.nested) readResources := by
  refine Reader.keys_adopted fun key v r hv h => ?_
  obtain ⟨huri, hrest⟩ := Resource.isReadUnder_read hv rfl r h
  refine ⟨fun _ => name_of_adopted Resource.uri (fun key r => { r with uri := key }) huri rfl, ?_⟩
  split <;> exact hrest

/-- Whether all methods, responses and resources of a document go by their keys. -/
structure IsKeyed (a : Api) : Prop where
  resources : Resource.AreKeyed a.resources
  declared : a.declared.IsKeyed
  libraries : ∀ own l, Library.Within a.libraries own l → l.declared.IsKeyed

/-- Everything goes by its key in a document whose nodes say nothing else. -/
theorem isKeyed_of_build {source version : String} {entries : List (Value × Value)} {a : Api}
    (hkeyed : Node.IsKeyed ⟨.document, "", .map entries⟩)
    (h : build source version entries = .ok a) : a.IsKeyed := by
  rw [build] at h
  split at h
  · rename_i read hread
    obtain rfl := Except.ok.inj h
    obtain ⟨f, hf, hread⟩ :=
      EntityForm.areKeyed_of_ofEntries (keepsKeys _) (Node.isKeyed_iff.mp hkeyed) hread
    obtain ⟨-, hdeclared, hlibraries, -, -, -, -, -, -, -, -, -, -, hresources, -⟩ :=
      ofFields_eq_good.mp hread
    have hall := hf.table keys_readResources (by decide) hresources
    refine ⟨.intro (fun e he => (hall e he).1) (fun e he => (hall e he).2.1)
      (fun e he => (hall e he).2.2), Declarations.isKeyed_of_ofFields (.inl rfl) hf hdeclared,
      Library.isKeyed_of_field (Library.gathers_read.forall_mem_read.mpr fun c hc l hl => ?_)
        hlibraries⟩
    -- a library is read of a node in the table of libraries
    obtain ⟨e, he, hkey, hc⟩ := Value.of_mem_membersUnder hc
    have hplace : Role.document.place e.1.key = .table .library := by
      rw [hkey]
      decide
    obtain ⟨-, hmembers⟩ := hkeyed
    have hlibrary :=
      hmembers _ (Node.mem_members_of_table he hplace hc (List.mem_cons_self ..))
    exact Library.isKeyed_of_read hlibrary rfl hl
  · cases h

end Api

end Raml
