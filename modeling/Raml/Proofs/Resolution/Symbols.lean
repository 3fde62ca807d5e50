import Mathlib.Data.List.Basic
import Mathlib.Data.List.TakeWhile
import Raml.Proofs.Document.Tree
import Raml.Proofs.Table
import Raml.Resolution.Symbols

/-!
# What a qualified name refers to

The table of symbols is filled library by library, a library before those it uses, and the first
symbol to come under a name keeps it. `offers` lists the symbols in the order in which they come,
so that a name means the first of them that bears it (`get?_addLibraries`).

A library that is used by another one is also known by its own alias alone. So the name of what the
root document itself imports, `lib.paged`, may be taken by then: `lookup_import_iff` says that it
refers to that exactly if no library that the root lists earlier uses, at any depth, another library
under the same alias that declares the same name.
-/

namespace Raml

/-! ## The three kinds of templates -/

/-- The templates of a kind. -/
def SymbolKind.Template : SymbolKind → Type
  | .resourceType => ResourceType
  | .trait => Trait
  | .securityScheme => SecurityScheme

/-- The templates of a kind that are declared in one place. -/
def Declarations.templates (d : Declarations) : (kind : SymbolKind) → Table kind.Template
  | .resourceType => d.resourceTypes
  | .trait => d.traits
  | .securityScheme => d.securitySchemes

/-- A template is declared in the root document or in a library that it uses, at any depth. -/
def Api.Declares (a : Api) (kind : SymbolKind) (t : kind.Template) : Prop :=
  (∃ n, (n, t) ∈ a.declared.templates kind) ∨
    ∃ own l n, Library.Within a.libraries own l ∧ (n, t) ∈ l.declared.templates kind

/-- The names of a kind that a library declares. -/
def Library.declares (l : Library) (kind : SymbolKind) : List String :=
  (l.declared.templates kind).names

namespace Symbols

variable {kind : SymbolKind}

/-- The symbols of a kind. -/
def table (s : Symbols) : (kind : SymbolKind) → Table (Symbol kind.Template)
  | .resourceType => s.resourceTypes
  | .trait => s.traits
  | .securityScheme => s.securitySchemes

/-- The symbol of a kind that a reference names. -/
def lookup (s : Symbols) (kind : SymbolKind) (scope : Option String) (name : String) :
    Except Error (Symbol kind.Template) :=
  find kind (s.table kind) scope name

theorem lookup_securityScheme {s : Symbols} : s.lookup .securityScheme = s.securityScheme := rfl

/-! ## Symbols in the order in which they come -/

/-- The symbols of one place under their names, after an alias. -/
def keyed (kind : SymbolKind) (d : Declarations) (library : Option Library)
    (aliasName : Option String) (keyAlias : String) : Table (Symbol kind.Template) :=
  (d.templates kind).map fun e => (qualified keyAlias e.1, ⟨e.2, library, aliasName⟩)

/-- The symbols of a library, also under its own alias where that is another. -/
def ownOffers (kind : SymbolKind) (aliasName own : String) (l : Library) :
    Table (Symbol kind.Template) :=
  keyed kind l.declared (some l) (some aliasName) aliasName ++
    if own = aliasName then []
    else keyed kind l.declared (some l) (some aliasName) (if own.isEmpty then aliasName else own)

mutual

/-- The symbols of a library and of all those that it uses. -/
def offers (kind : SymbolKind) (aliasName own : String) : Library → Table (Symbol kind.Template)
  | ⟨annotations, declared, libraries, location, usage⟩ =>
    ownOffers kind aliasName own ⟨annotations, declared, libraries, location, usage⟩ ++
      offersOfAll kind (aliasName ++ ".") libraries

/-- The symbols of several libraries, each under what stands before its alias and the alias. -/
def offersOfAll (kind : SymbolKind) (before : String) :
    List (String × Library) → Table (Symbol kind.Template)
  | [] => []
  | (own, l) :: rest => offers kind (before ++ own) own l ++ offersOfAll kind before rest

end

theorem offers_eq {aliasName own : String} {l : Library} :
    offers kind aliasName own l =
      ownOffers kind aliasName own l ++ offersOfAll kind (aliasName ++ ".") l.libraries := by
  cases l
  rfl

theorem offersOfAll_append {before : String} {xs ys : List (String × Library)} :
    offersOfAll kind before (xs ++ ys) =
      offersOfAll kind before xs ++ offersOfAll kind before ys := by
  induction xs with
  | nil => rfl
  | cons e xs ih =>
    obtain ⟨own, l⟩ := e
    rw [List.cons_append, offersOfAll, offersOfAll, ih, List.append_assoc]

/-- Several libraries offer what one of them does, under its alias. -/
theorem mem_offersOfAll {before : String} {libs : List (String × Library)}
    {e : String × Symbol kind.Template} :
    e ∈ offersOfAll kind before libs ↔
      ∃ own l, (own, l) ∈ libs ∧ e ∈ offers kind (before ++ own) own l := by
  induction libs with
  | nil => simp [offersOfAll]
  | cons x libs ih =>
    obtain ⟨own, l⟩ := x
    rw [offersOfAll, List.mem_append, ih]
    constructor
    · rintro (h | ⟨own', l', hmem, h⟩)
      · exact ⟨own, l, List.mem_cons_self .., h⟩
      · exact ⟨own', l', List.mem_cons_of_mem _ hmem, h⟩
    · rintro ⟨own', l', hmem, h⟩
      rcases List.mem_cons.mp hmem with heq | hmem
      · cases heq
        exact .inl h
      · exact .inr ⟨own', l', hmem, h⟩

/-! ## The table takes the first -/

theorem qualified_inj {aliasName m n : String} (h : qualified aliasName m = qualified aliasName n) :
    m = n := by
  rw [qualified, qualified] at h
  split at h
  · exact h
  · exact String.toList_inj.mp (by simpa using congrArg String.toList h)

/-- A symbol that is offered counts only if there is none under its key. -/
theorem get?_offer {α : Type} {key name : String} {s : Symbol α} {t : Table (Symbol α)} :
    (offer name s t).get? key = (t.get? key).or (Table.get? key [(name, s)]) := by
  rw [offer]
  by_cases hname : t.has name = true
  · rw [if_pos hname]
    -- a name that is taken keeps what it has, so the new symbol is never looked at
    by_cases hkey : name = key
    · obtain ⟨old, hold⟩ := Option.isSome_iff_exists.mp (hkey ▸ hname : (t.get? key).isSome = true)
      rw [hold]
      rfl
    · rw [Table.get?, if_neg hkey, Table.get?, Option.or_none]
  · rw [if_neg hname, Table.set_of_not_has (by simpa using hname), Table.get?_append]

theorem get?_offerAll {α : Type} {key : String} {library : Option Library}
    {aliasName : Option String} {keyAlias : String} {templates : Table α} :
    ∀ t : Table (Symbol α), (offerAll library aliasName keyAlias t templates).get? key =
      (t.get? key).or (Table.get? key
        (templates.map fun e => (qualified keyAlias e.1, ⟨e.2, library, aliasName⟩))) := by
  induction templates with
  | nil =>
    intro t
    exact (Option.or_none).symm
  | cons e templates ih =>
    intro t
    rw [offerAll, List.foldl_cons]
    refine (ih _).trans ?_
    rw [get?_offer, Option.or_assoc, ← Table.get?_append]
    rfl

/-- What a document declares counts behind what is there. -/
theorem get?_declare {s : Symbols} {d : Declarations} {library : Option Library}
    {aliasName : Option String} {keyAlias key : String} :
    ((s.declare d library aliasName keyAlias).table kind).get? key =
      ((s.table kind).get? key).or ((keyed kind d library aliasName keyAlias).get? key) := by
  cases kind <;> exact get?_offerAll _

theorem get?_declareLibrary {s : Symbols} {l : Library} {aliasName own key : String} :
    ((s.declareLibrary l aliasName own).table kind).get? key =
      ((s.table kind).get? key).or ((ownOffers kind aliasName own l).get? key) := by
  rw [declareLibrary, ownOffers, Table.get?_append]
  split
  · rw [get?_declare, Table.get?, Option.or_none]
  · rw [get?_declare, get?_declare, Option.or_assoc]

mutual

/-- A library adds all that it offers, behind what is there. -/
theorem get?_addLibrary {key : String} :
    ∀ (l : Library) (s : Symbols) (aliasName own : String),
      ((addLibrary s aliasName own l).table kind).get? key =
        ((s.table kind).get? key).or ((offers kind aliasName own l).get? key)
  | ⟨_, _, libraries, _, _⟩, s, aliasName, own => by
      rw [addLibrary, get?_addLibraries libraries, get?_declareLibrary, offers, Table.get?_append,
        Option.or_assoc]

theorem get?_addLibraries {key : String} :
    ∀ (libs : List (String × Library)) (s : Symbols) (before : String),
      ((addAll s before libs).table kind).get? key =
        ((s.table kind).get? key).or ((offersOfAll kind before libs).get? key)
  | [], _, _ => by rw [addAll, offersOfAll, Table.get?, Option.or_none]
  | (own, l) :: rest, s, before => by
      rw [addAll, get?_addLibraries rest, get?_addLibrary l, offersOfAll, Table.get?_append,
        Option.or_assoc]

end

theorem get?_keyed {d : Declarations} {library : Option Library} {aliasName : Option String}
    {keyAlias n : String} :
    (keyed kind d library aliasName keyAlias).get? (qualified keyAlias n) =
      ((d.templates kind).get? n).map fun t => ⟨t, library, aliasName⟩ := by
  let symbol (t : kind.Template) : Symbol kind.Template := ⟨t, library, aliasName⟩
  exact Table.get?_map (g := symbol) (fun _ hm => qualified_inj hm) (d.templates kind)

/-- A name that the root document does not declare means the first symbol that comes under it. -/
theorem get?_ofApi {a : Api} {key : String} (h : (a.declared.templates kind).get? key = none) :
    ((ofApi a).table kind).get? key = (offersOfAll kind "" a.libraries).get? key := by
  have hempty : (empty.table kind).get? key = none := by cases kind <;> rfl
  have hroot : (keyed kind a.declared none none "").get? key = none := by
    change (keyed kind a.declared none none "").get? (qualified "" key) = none
    rw [get?_keyed, h]
    rfl
  rw [ofApi, get?_addLibraries, get?_declare, hempty, hroot]
  rfl

/-- From the document itself a name is looked up as it stands. -/
theorem lookup_eq_ok_iff {s : Symbols} {name : String} {sym : Symbol kind.Template} :
    s.lookup kind none name = .ok sym ↔ (s.table kind).get? name = some sym := by
  rw [lookup, find, Option.or_none]
  cases (s.table kind).get? name <;> simp

/-! ## Where a template is declared -/

theorem get?_of_find {α : Type} {t : Table (Symbol α)} {scope : Option String} {name : String}
    {sym : Symbol α} (h : find kind t scope name = .ok sym) : ∃ key, t.get? key = some sym := by
  rw [find.eq_def] at h
  simp only at h
  split at h
  · rename_i found hfound
    obtain rfl := Except.ok.inj h
    rcases Option.or_eq_some_iff.mp hfound with hown | ⟨-, hscope⟩
    · exact ⟨name, hown⟩
    · split at hscope
      · cases hscope
      · split at hscope
        · cases hscope
        · exact ⟨_, hscope⟩
  · cases h

theorem template_of_mem_keyed {d : Declarations} {library : Option Library}
    {aliasName : Option String} {keyAlias key : String} {s : Symbol kind.Template}
    (h : (key, s) ∈ keyed kind d library aliasName keyAlias) :
    ∃ n, (n, s.template) ∈ d.templates kind := by
  obtain ⟨⟨n, t⟩, hmem, heq⟩ := List.mem_map.mp h
  cases heq
  exact ⟨n, hmem⟩

theorem template_of_mem_ownOffers {aliasName own key : String} {l : Library}
    {s : Symbol kind.Template} (h : (key, s) ∈ ownOffers kind aliasName own l) :
    ∃ n, (n, s.template) ∈ l.declared.templates kind := by
  rw [ownOffers, List.mem_append] at h
  rcases h with h | h
  · exact template_of_mem_keyed h
  · split at h
    · cases h
    · exact template_of_mem_keyed h

mutual

/-- What a library offers is declared in it or in one within it. -/
theorem declares_of_mem_offers : ∀ (l : Library) (aliasName own key : String)
    (s : Symbol kind.Template), (key, s) ∈ offers kind aliasName own l →
      (∃ n, (n, s.template) ∈ l.declared.templates kind) ∨
        ∃ via k n, Library.Within l.libraries via k ∧ (n, s.template) ∈ k.declared.templates kind
  | ⟨annotations, declared, libraries, location, usage⟩, aliasName, own, key, s, h => by
      rw [offers, List.mem_append] at h
      rcases h with h | h
      · exact .inl (template_of_mem_ownOffers h)
      · exact .inr (declares_of_mem_offersOfAll libraries _ key s h)

/-- What a name means among the symbols of libraries, one of them declares, at some depth. -/
theorem declares_of_mem_offersOfAll : ∀ (libs : List (String × Library)) (before key : String)
    (s : Symbol kind.Template), (key, s) ∈ offersOfAll kind before libs →
      ∃ via k n, Library.Within libs via k ∧ (n, s.template) ∈ k.declared.templates kind
  | [], _, _, _, h => by cases h
  | (own, l) :: rest, before, key, s, h => by
      rw [offersOfAll, List.mem_append] at h
      rcases h with h | h
      · rcases declares_of_mem_offers l _ own key s h with ⟨n, hn⟩ | ⟨via, k, n, hk, hn⟩
        · exact ⟨own, l, n, Library.within_cons.mpr (.inl ⟨rfl, rfl⟩), hn⟩
        · exact ⟨via, k, n, Library.within_cons.mpr (.inr (.inl hk)), hn⟩
      · obtain ⟨via, k, n, hk, hn⟩ := declares_of_mem_offersOfAll rest before key s h
        exact ⟨via, k, n, Library.within_cons.mpr (.inr (.inr hk)), hn⟩

end

/-- What a reference means is declared in the document. -/
theorem declares_of_lookup {a : Api} {scope : Option String} {name : String}
    {s : Symbol kind.Template} (h : (ofApi a).lookup kind scope name = .ok s) :
    a.Declares kind s.template := by
  obtain ⟨key, hkey⟩ := get?_of_find h
  have hempty : (empty.table kind).get? key = none := by cases kind <;> rfl
  rw [ofApi, get?_addLibraries, get?_declare, hempty, Option.none_or, Option.or_eq_some_iff] at hkey
  rcases hkey with hroot | ⟨-, hlib⟩
  · exact .inl (template_of_mem_keyed (Table.mem_of_get? hroot))
  · exact .inr (declares_of_mem_offersOfAll _ _ _ _ (Table.mem_of_get? hlib))

/-! ## Whose name it is -/

/-- An alias without a dot and the name after it can be told apart again. -/
theorem alias_eq_of_qualified {aliasName own n m : String} (hdot : '.' ∉ own.toList)
    (hn : '.' ∉ n.toList) (h : aliasName ++ "." ++ m = own ++ "." ++ n) :
    aliasName = own ∧ m = n := by
  have hchars := congrArg String.toList h
  simp only [String.toList_append, List.append_assoc] at hchars
  have hparts := (List.append_cons_inj_of_notMem hdot hn).mp hchars.symm
  exact ⟨String.toList_inj.mp hparts.1.symm, String.toList_inj.mp hparts.2.2.symm⟩

theorem mem_keyed {l : Library} {aliasName keyAlias key : String} {s : Symbol kind.Template} :
    (key, s) ∈ keyed kind l.declared (some l) (some aliasName) keyAlias ↔
      ∃ m t, (m, t) ∈ l.declared.templates kind ∧ qualified keyAlias m = key ∧
        s = ⟨t, some l, some aliasName⟩ := by
  simp only [keyed, List.mem_map, Prod.mk.injEq, Prod.exists]
  constructor
  · rintro ⟨m, t, hmem, hkey, rfl⟩
    exact ⟨m, t, hmem, hkey, rfl⟩
  · rintro ⟨m, t, hmem, hkey, rfl⟩
    exact ⟨m, t, hmem, hkey, rfl⟩

/-- What a library offers itself comes under its full alias. -/
theorem aliasName_of_mem_ownOffers {l : Library} {aliasName own key : String}
    {s : Symbol kind.Template} (h : (key, s) ∈ ownOffers kind aliasName own l) :
    s.aliasName = some aliasName := by
  rw [ownOffers, List.mem_append] at h
  rcases h with h | h
  · obtain ⟨_, _, -, -, rfl⟩ := mem_keyed.mp h
    rfl
  · split at h
    · cases h
    · obtain ⟨_, _, -, -, rfl⟩ := mem_keyed.mp h
      rfl

variable {A n : String}

/-- What a library that is reached through another one has under a name with a single dot, it
declares itself and has it under its own alias. -/
theorem own_of_mem_ownOffers {l : Library} {aliasName own : String} {s : Symbol kind.Template}
    (hA : '.' ∉ A.toList) (hn : '.' ∉ n.toList) (hdot : '.' ∈ aliasName.toList)
    (h : (A ++ "." ++ n, s) ∈ ownOffers kind aliasName own l) : own = A ∧ n ∈ l.declares kind := by
  have hne : aliasName.isEmpty = false := by
    rw [String.isEmpty_eq_false_iff]
    rintro rfl
    cases hdot
  -- under the alias with dots before it, the name has two dots
  have hlong : ∀ m, qualified aliasName m ≠ A ++ "." ++ n := by
    intro m hm
    rw [qualified, if_neg (by simp [hne])] at hm
    exact hA ((alias_eq_of_qualified hA hn hm).1 ▸ hdot)
  rw [ownOffers, List.mem_append] at h
  rcases h with h | h
  · obtain ⟨m, _, -, hm, -⟩ := mem_keyed.mp h
    exact absurd hm (hlong m)
  · split at h
    · cases h
    · obtain ⟨m, t, hmem, hm, -⟩ := mem_keyed.mp h
      by_cases hown : own.isEmpty = true
      · rw [if_pos hown] at hm
        exact absurd hm (hlong m)
      · rw [if_neg hown, qualified, if_neg hown] at hm
        obtain ⟨rfl, rfl⟩ := alias_eq_of_qualified hA hn hm
        exact ⟨rfl, List.mem_map_of_mem hmem⟩

mutual

theorem within_of_mem_offers (hA : '.' ∉ A.toList) (hn : '.' ∉ n.toList) :
    ∀ (l : Library) (aliasName own : String) (s : Symbol kind.Template), '.' ∈ aliasName.toList →
      (A ++ "." ++ n, s) ∈ offers kind aliasName own l →
      (∃ long, s.aliasName = some long ∧ '.' ∈ long.toList) ∧
        ((own = A ∧ n ∈ l.declares kind) ∨
          ∃ k, Library.Within l.libraries A k ∧ n ∈ k.declares kind)
  | ⟨annotations, declared, libraries, location, usage⟩, aliasName, own, s, hdot, h => by
      -- the library has the name itself, or one of those that it uses
      rw [offers, List.mem_append] at h
      rcases h with h | h
      · exact ⟨⟨aliasName, aliasName_of_mem_ownOffers h, hdot⟩,
          .inl (own_of_mem_ownOffers hA hn hdot h)⟩
      · obtain ⟨hlong, k, hk, hdeclares⟩ :=
          within_of_mem_offersOfAll hA hn libraries (aliasName ++ ".") s (by simp) h
        exact ⟨hlong, .inr ⟨k, hk, hdeclares⟩⟩

/-- Behind an alias, a name with a single dot comes from a library that is used under that alias,
and whose whole alias is a longer one. -/
theorem within_of_mem_offersOfAll (hA : '.' ∉ A.toList) (hn : '.' ∉ n.toList) :
    ∀ (libs : List (String × Library)) (before : String) (s : Symbol kind.Template),
      '.' ∈ before.toList → (A ++ "." ++ n, s) ∈ offersOfAll kind before libs →
      (∃ long, s.aliasName = some long ∧ '.' ∈ long.toList) ∧
        ∃ k, Library.Within libs A k ∧ n ∈ k.declares kind
  | [], _, _, _, h => by cases h
  | (own, l) :: rest, before, s, hdot, h => by
      rw [offersOfAll, List.mem_append] at h
      rcases h with h | h
      · have hdot' : '.' ∈ (before ++ own).toList := by simp [hdot]
        obtain ⟨hlong, ⟨rfl, hdeclares⟩ | ⟨k, hk, hdeclares⟩⟩ :=
          within_of_mem_offers hA hn l (before ++ own) own s hdot' h
        · exact ⟨hlong, l, Library.within_cons.mpr (.inl ⟨rfl, rfl⟩), hdeclares⟩
        · exact ⟨hlong, k, Library.within_cons.mpr (.inr (.inl hk)), hdeclares⟩
      · obtain ⟨hlong, k, hk, hdeclares⟩ := within_of_mem_offersOfAll hA hn rest before s hdot h
        exact ⟨hlong, k, Library.within_cons.mpr (.inr (.inr hk)), hdeclares⟩

end

/-- A library that is used under an alias has what it declares under that alias. -/
theorem mem_offersOfAll_of_within {libs : List (String × Library)} {k : Library} (hne : A ≠ "")
    (hA : '.' ∉ A.toList) (h : Library.Within libs A k) (hn : n ∈ k.declares kind) :
    ∀ before : String, '.' ∈ before.toList →
      ∃ s, (A ++ "." ++ n, s) ∈ offersOfAll kind before libs := by
  induction h with
  | @here libs own l hmem =>
    intro before hdot
    obtain ⟨⟨m, t⟩, hmt, rfl⟩ := List.mem_map.mp hn
    have hown : own.isEmpty = false := String.isEmpty_eq_false_iff.mpr hne
    -- behind another alias its own is never the whole one
    have hlong : own ≠ before ++ own := by
      intro heq
      rw [heq, String.toList_append] at hA
      exact hA (List.mem_append_left _ hdot)
    have hkeyed : (own ++ "." ++ m, (⟨t, some l, some (before ++ own)⟩ : Symbol kind.Template)) ∈
        keyed kind l.declared (some l) (some (before ++ own)) own :=
      mem_keyed.mpr ⟨m, t, hmt, by simp [qualified, hown], rfl⟩
    refine ⟨⟨t, some l, some (before ++ own)⟩, mem_offersOfAll.mpr ⟨own, l, hmem, ?_⟩⟩
    rw [offers_eq, ownOffers, if_neg hlong, if_neg (by simp [hown])]
    exact List.mem_append_left _ (List.mem_append_right _ hkeyed)
  | @through libs via own m l hmem _ ih =>
    intro before _
    -- seen from further up there is one alias more in front
    obtain ⟨s, hs⟩ := ih hne hA hn (before ++ via ++ ".") (by simp)
    refine ⟨s, mem_offersOfAll.mpr ⟨via, m, hmem, ?_⟩⟩
    rw [offers_eq]
    exact List.mem_append_right _ hs

/-! ## What the root document imports -/

/-- A name with a single dot comes from a library that the root imports under that alias, or from
one that is used further down under it, and then it is reached under a longer alias. -/
theorem root_or_within_of_mem_offers {l : Library} {own : String} {s : Symbol kind.Template}
    (hA : '.' ∉ A.toList) (hn : '.' ∉ n.toList) (hnames : ∀ m ∈ l.declares kind, '.' ∉ m.toList)
    (h : (A ++ "." ++ n, s) ∈ offers kind own own l) :
    (own = A ∧ own ≠ "") ∨
      (s.aliasName ≠ some A ∧ ∃ k, Library.Within l.libraries A k ∧ n ∈ k.declares kind) := by
  rw [offers_eq, ownOffers, if_pos rfl, List.append_nil, List.mem_append] at h
  rcases h with h | h
  · obtain ⟨m, t, hmem, hm, -⟩ := mem_keyed.mp h
    by_cases hown : own.isEmpty = true
    · -- without an alias the name stands alone, and it has no dot
      rw [qualified, if_pos hown] at hm
      exact absurd (by simp [hm]) (hnames m (List.mem_map_of_mem hmem))
    · rw [qualified, if_neg hown] at hm
      exact .inl ⟨(alias_eq_of_qualified hA hn hm).1, by simpa using hown⟩
  · obtain ⟨⟨long, hlong, hdot⟩, hwithin⟩ :=
      within_of_mem_offersOfAll hA hn l.libraries (own ++ ".") s (by simp) h
    refine .inr ⟨fun halias => ?_, hwithin⟩
    exact hA (Option.some.inj (hlong.symm.trans halias) ▸ hdot)

theorem root_or_within_of_mem_offersOfAll {libs : List (String × Library)}
    {s : Symbol kind.Template} (hA : '.' ∉ A.toList) (hn : '.' ∉ n.toList)
    (hnames : ∀ e ∈ libs, ∀ m ∈ e.2.declares kind, '.' ∉ m.toList)
    (h : (A ++ "." ++ n, s) ∈ offersOfAll kind "" libs) :
    ∃ e ∈ libs, (e.1 = A ∧ e.1 ≠ "") ∨
      (s.aliasName ≠ some A ∧ ∃ k, Library.Within e.2.libraries A k ∧ n ∈ k.declares kind) := by
  obtain ⟨own, l, hlib, hoffer⟩ := mem_offersOfAll.mp h
  rw [String.empty_append] at hoffer
  exact ⟨(own, l), hlib, root_or_within_of_mem_offers hA hn (hnames _ hlib) hoffer⟩

/-- What a library that the root imports declares comes first among its own symbols. -/
theorem get?_offers_self {l : Library} {t : kind.Template} (hne : A ≠ "")
    (ht : (l.declared.templates kind).get? n = some t) :
    (offers kind A A l).get? (A ++ "." ++ n) = some ⟨t, some l, some A⟩ := by
  have hempty : A.isEmpty = false := String.isEmpty_eq_false_iff.mpr hne
  have hkeyed : (keyed kind l.declared (some l) (some A) A).get? (A ++ "." ++ n) =
      some ⟨t, some l, some A⟩ := by
    have hname : qualified A n = A ++ "." ++ n := if_neg (by simp [hempty])
    rw [← hname, get?_keyed, ht]
    rfl
  rw [offers_eq, ownOffers, Table.get?_append, Table.get?_append, hkeyed]
  rfl

/-- A name with a single dot comes from a library further down if none of these libraries is
imported under the alias before the dot. -/
theorem within_of_mem_offersOfAll_of_ne {libs : List (String × Library)}
    {s : Symbol kind.Template} (hA : '.' ∉ A.toList) (hn : '.' ∉ n.toList)
    (hnames : ∀ e ∈ libs, ∀ m ∈ e.2.declares kind, '.' ∉ m.toList) (hother : ∀ e ∈ libs, e.1 ≠ A)
    (h : (A ++ "." ++ n, s) ∈ offersOfAll kind "" libs) : s.aliasName ≠ some A ∧
      ∃ e ∈ libs, ∃ k, Library.Within e.2.libraries A k ∧ n ∈ k.declares kind := by
  obtain ⟨e, he, ⟨heq, -⟩ | ⟨halias, hwithin⟩⟩ := root_or_within_of_mem_offersOfAll hA hn hnames h
  · exact absurd heq (hother e he)
  · exact ⟨halias, e, he, hwithin⟩

/-- A library further down offers what it declares under its own alias. -/
theorem exists_get?_of_within {libs : List (String × Library)} {e : String × Library} {k : Library}
    (hne : A ≠ "") (hA : '.' ∉ A.toList) (he : e ∈ libs) (hk : Library.Within e.2.libraries A k)
    (hn : n ∈ k.declares kind) :
    ∃ s, (offersOfAll kind "" libs).get? (A ++ "." ++ n) = some s := by
  obtain ⟨s, hs⟩ := mem_offersOfAll_of_within hne hA hk hn (e.1 ++ ".") (by simp)
  have hoffer : (A ++ "." ++ n, s) ∈ offersOfAll kind "" libs := by
    refine mem_offersOfAll.mpr ⟨e.1, e.2, he, ?_⟩
    rw [String.empty_append, offers_eq]
    exact List.mem_append_right _ hs
  exact Option.ne_none_iff_exists'.mp (Table.get?_ne_none hoffer)

/-- **A reference through an import of the root document finds that import, unless an earlier
one takes its name.** The name `A.n` refers to what the library imported as `A` declares as `n`
exactly if `A` is not empty and no library listed before it uses, directly or through others, a
library under the alias `A` that declares `n`. Aliases and the names of libraries have no dots,
and the root document declares nothing by the very name `A.n`. -/
theorem lookup_import_iff (kind : SymbolKind) (a : Api) (A n : String) (l : Library)
    (t : kind.Template)
    (hdots : ∀ own k, Library.Within a.libraries own k →
      '.' ∉ own.toList ∧ ∀ m ∈ k.declares kind, '.' ∉ m.toList)
    (hroot : (a.declared.templates kind).get? (A ++ "." ++ n) = none)
    (hl : a.libraries.get? A = some l) (ht : (l.declared.templates kind).get? n = some t) :
    (ofApi a).lookup kind none (A ++ "." ++ n) = .ok ⟨t, some l, some A⟩ ↔
      A ≠ "" ∧ ∀ e ∈ a.libraries.takeWhile (fun e => e.1 ≠ A), ∀ k,
        Library.Within e.2.libraries A k → n ∉ k.declares kind := by
  have hmem : (A, l) ∈ a.libraries := Table.mem_of_get? hl
  have hA : '.' ∉ A.toList := (hdots A l (.here hmem)).1
  have hnames : ∀ e ∈ a.libraries, ∀ m ∈ e.2.declares kind, '.' ∉ m.toList :=
    fun e he => (hdots e.1 e.2 (.here he)).2
  have hn : '.' ∉ n.toList := hnames _ hmem n (List.mem_map_of_mem (Table.mem_of_get? ht))
  obtain ⟨after, hsplit⟩ := Table.eq_append_of_get? hl
  set earlier := a.libraries.takeWhile (fun e => e.1 ≠ A) with hearlier
  have hsub : ∀ e ∈ earlier, e ∈ a.libraries := List.takeWhile_subset _
  have hother : ∀ e ∈ earlier, e.1 ≠ A := fun e he => by simpa using List.mem_takeWhile_imp he
  have hfrom : ∀ s : Symbol kind.Template, (A ++ "." ++ n, s) ∈ offersOfAll kind "" earlier →
      s.aliasName ≠ some A ∧
        ∃ e ∈ earlier, ∃ k, Library.Within e.2.libraries A k ∧ n ∈ k.declares kind :=
    fun s => within_of_mem_offersOfAll_of_ne hA hn (fun e he => hnames e (hsub e he)) hother
  -- the name means the first symbol of the earlier libraries, or else the one of the import
  have hget : ((ofApi a).table kind).get? (A ++ "." ++ n) =
      ((offersOfAll kind "" earlier).get? (A ++ "." ++ n)).or
        (((offers kind A A l).get? (A ++ "." ++ n)).or
          ((offersOfAll kind "" after).get? (A ++ "." ++ n))) := by
    rw [get?_ofApi hroot, hsplit, offersOfAll_append, offersOfAll, Table.get?_append,
      Table.get?_append, String.empty_append]
  rw [lookup_eq_ok_iff]
  constructor
  · intro hfound
    have hne : A ≠ "" := by
      have hoffer := Table.mem_of_get? ((get?_ofApi hroot).symm.trans hfound)
      obtain ⟨e, -, ⟨he, hne⟩ | ⟨halias, -⟩⟩ :=
        root_or_within_of_mem_offersOfAll hA hn hnames hoffer
      · exact he ▸ hne
      · exact absurd rfl halias
    refine ⟨hne, ?_⟩
    -- a library under the alias further down would have the name first
    intro e he k hk hdeclares
    obtain ⟨first, hfirst⟩ := exists_get?_of_within hne hA he hk hdeclares
    rw [hget, hfirst, Option.some_or] at hfound
    exact (hfrom first (Table.mem_of_get? hfirst)).1 (by rw [Option.some.inj hfound])
  · rintro ⟨hne, hfree⟩
    have hnone : (offersOfAll kind "" earlier).get? (A ++ "." ++ n) = none := by
      refine Table.get?_eq_none fun s hs => ?_
      obtain ⟨-, e, he, k, hk, hdeclares⟩ := hfrom s hs
      exact hfree e he k hk hdeclares
    rw [hget, hnone, get?_offers_self hne ht]
    rfl

/-- A library that declares traits and uses other libraries. -/
def traitLibrary (location : String) (traits : List String) (libraries : List (String × Library)) :
    Library :=
  { annotations := [], location, libraries, usage := none
    declared := { (default : Declarations) with
      traits := traits.map fun n => (n, ⟨Method.named n, none⟩) } }

/-- A root document whose first library uses another one under the given alias, where both that one
and the second library declare `paged`. -/
def twoImports (nested : String) : Api :=
  { (default : Api) with libraries := [
    ("first", traitLibrary "first.raml" [] [(nested, traitLibrary "nested.raml" ["paged"] [])]),
    ("second", traitLibrary "second.raml" ["paged"] [])] }

theorem twoImports_cases {nested own : String} {k : Library}
    (h : Library.Within (twoImports nested).libraries own k) :
    (own = "first" ∧ k.declares .trait = []) ∨
      ((own = nested ∨ own = "second") ∧ k.declares .trait = ["paged"]) := by
  simp only [twoImports, traitLibrary, Library.within_cons, Library.not_within_nil, or_false] at h
  rcases h with ⟨rfl, rfl⟩ | ⟨rfl, rfl⟩ | ⟨rfl, rfl⟩
  · exact .inl ⟨rfl, rfl⟩
  · exact .inr ⟨.inl rfl, rfl⟩
  · exact .inr ⟨.inr rfl, rfl⟩

theorem twoImports_plain {nested : String} (hnested : '.' ∉ nested.toList) :
    ∀ own k, Library.Within (twoImports nested).libraries own k →
      '.' ∉ own.toList ∧ ∀ m ∈ k.declares .trait, '.' ∉ m.toList := by
  intro own k h
  rcases twoImports_cases h with ⟨rfl, hk⟩ | ⟨rfl | rfl, hk⟩ <;> rw [hk]
  · exact ⟨by decide, by decide⟩
  · exact ⟨hnested, by decide⟩
  · exact ⟨by decide, by decide⟩

/-- Where the alias further down is another one, the name is that of the import. -/
theorem lookup_second_of_inner :
    (ofApi (twoImports "inner")).lookup .trait none "second.paged" =
      .ok ⟨⟨Method.named "paged", none⟩, some (traitLibrary "second.raml" ["paged"] []),
        some "second"⟩ := by
  refine (lookup_import_iff .trait (twoImports "inner") "second" "paged" _ _
    (twoImports_plain (by decide)) rfl rfl rfl).mpr ⟨by decide, ?_⟩
  intro e he k hk _
  obtain rfl := List.mem_singleton.mp he
  simp [traitLibrary, Library.within_cons, Library.not_within_nil] at hk

/-- A library that is used further down takes the name of an import that is listed later. -/
theorem import_shadowed :
    ¬∀ (kind : SymbolKind) (a : Api) (A n : String) (l : Library) (t : kind.Template),
      (∀ own k, Library.Within a.libraries own k →
        '.' ∉ own.toList ∧ ∀ m ∈ k.declares kind, '.' ∉ m.toList) →
      (a.declared.templates kind).get? (A ++ "." ++ n) = none → a.libraries.get? A = some l →
      (l.declared.templates kind).get? n = some t →
      (ofApi a).lookup kind none (A ++ "." ++ n) = .ok ⟨t, some l, some A⟩ := by
  intro h
  have hclaimed := h .trait (twoImports "second") "second" "paged" _ _
    (twoImports_plain (by decide)) rfl rfl rfl
  have hfound : ((ofApi (twoImports "second")).lookup .trait none "second.paged").toOption.bind
      Symbol.aliasName = some "first.second" := by decide +kernel
  rw [show "second.paged" = "second" ++ "." ++ "paged" by decide, hclaimed] at hfound
  exact absurd hfound (by decide)

end Symbols
end Raml
