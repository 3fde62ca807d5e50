import Mathlib.Data.List.Basic
import Mathlib.Data.List.TakeWhile
import Raml.Proofs.Resolution.Symbols

/-!
# References inside a library

A template of a library names what the library itself uses as `inner.paged`. The name is looked up
as it is written first, among all symbols of the document, and there every library that is used
further down goes by its own alias. So it refers to whatever library comes first in the order in
which they are added and is used as `inner` by anyone: `lookup_inner_iff` says that this is the one
that was meant exactly if no other one that comes before it declares the name.

The order is that of `Library.walkAll`, a library before those that it uses. An alias is kept there
as the list of the aliases on the way, and `alias_inj` tells such lists from their texts.
-/

namespace Raml

namespace Library

/-! ## The order of libraries -/

/-- A library is reached from libraries along aliases. -/
inductive Reached : List (String × Library) → List String → Library → Prop where
  | here {libs : List (String × Library)} {own : String} {l : Library} :
      Table.get? own libs = some l → Reached libs [own] l
  | through {libs : List (String × Library)} {via : String} {path : List String} {m l : Library} :
      Table.get? via libs = some m → Reached m.libraries path l → Reached libs (via :: path) l

/-- The alias under which a library goes that is reached along aliases. -/
def aliasOf (path : List String) : String := ".".intercalate path

mutual

/-- A library that is reached along aliases, and after it all that it uses. -/
def walk (path : List String) : Library → List (List String × Library)
  | ⟨annotations, declared, libraries, location, usage⟩ =>
    (path, ⟨annotations, declared, libraries, location, usage⟩) :: walkAll path libraries

/-- Libraries below those that are reached along the aliases `above`, each before those it uses. -/
def walkAll (above : List String) : List (String × Library) → List (List String × Library)
  | [] => []
  | (own, l) :: rest => walk (above ++ [own]) l ++ walkAll above rest

end

theorem walk_eq (path : List String) (l : Library) :
    walk path l = (path, l) :: walkAll path l.libraries := by
  cases l
  rw [walk]

/-- A walk through some libraries and then others is a walk through both. -/
theorem walkAll_append (above : List String) (xs ys : List (String × Library)) :
    walkAll above (xs ++ ys) = walkAll above xs ++ walkAll above ys := by
  induction xs with
  | nil => rfl
  | cons e xs ih =>
    obtain ⟨own, l⟩ := e
    rw [List.cons_append, walkAll, walkAll, ih, List.append_assoc]

theorem aliasOf_snoc {path : List String} (h : path ≠ []) (own : String) :
    aliasOf (path ++ [own]) = aliasOf path ++ "." ++ own :=
  String.intercalate_append_of_ne_nil h (List.cons_ne_nil _ _)

/-- What stands before the alias of a library in those of the libraries that it uses. -/
def aliasBefore (above : List String) : String := if above = [] then "" else aliasOf above ++ "."

theorem aliasBefore_append (above : List String) (own : String) :
    aliasBefore above ++ own = aliasOf (above ++ [own]) := by
  rw [aliasBefore]
  split
  · rename_i h
    subst h
    rw [String.empty_append]
    rfl
  · rename_i h
    exact (aliasOf_snoc h own).symm

theorem aliasBefore_snoc (above : List String) (own : String) :
    aliasBefore (above ++ [own]) = aliasOf (above ++ [own]) ++ "." := by
  rw [aliasBefore, if_neg (by simp)]

/-- Aliases without dots can be told apart again when they stand behind one another. -/
theorem alias_inj {p q : List String} (hp : p ≠ []) (hq : q ≠ []) (hpdot : ∀ a ∈ p, '.' ∉ a.toList)
    (hqdot : ∀ a ∈ q, '.' ∉ a.toList) (h : aliasOf p = aliasOf q) : p = q := by
  have hsplit : ∀ r : List String, r ≠ [] → (∀ a ∈ r, '.' ∉ a.toList) →
      (aliasOf r).toList.splitOn '.' = r.map String.toList := by
    intro r hr hdot
    rw [aliasOf, String.toList_intercalate]
    refine List.splitOn_intercalate '.' ?_ (by simpa using hr)
    simpa using hdot
  have hlists : p.map String.toList = q.map String.toList := by
    rw [← hsplit p hp hpdot, ← hsplit q hq hqdot, h]
  exact List.map_injective_iff.mpr (fun _ _ => String.toList_inj.mp) hlists

/-- What the walk comes to is used under the last alias, and the other ones are those of libraries
on the way. -/
def WithinAs (above : List String) (libs : List (String × Library)) (e : List String × Library) :
    Prop :=
  ∃ path own, e.1 = above ++ path ++ [own] ∧ Within libs own e.2 ∧
    ∀ via ∈ path, ∃ m, Within libs via m

mutual

/-- A walk through a library comes to libraries within it, under their aliases. -/
theorem withinAs_of_mem_walk : ∀ (l : Library) (above : List String) (own : String)
    (e : List String × Library), e ∈ walk (above ++ [own]) l → WithinAs above [(own, l)] e
  | ⟨annotations, declared, libraries, location, usage⟩, above, own, e, h => by
      rw [walk] at h
      rcases List.mem_cons.mp h with rfl | h
      · exact ⟨[], own, by simp, .here (List.mem_singleton_self _), List.forall_mem_nil _⟩
      · obtain ⟨path, last, he, hwithin, hvia⟩ := withinAs_of_mem_walkAll libraries _ e h
        refine ⟨own :: path, last, by simp [he], .through (List.mem_singleton_self _) hwithin, ?_⟩
        refine List.forall_mem_cons.mpr ⟨⟨_, .here (List.mem_singleton_self _)⟩, fun via hmem => ?_⟩
        obtain ⟨m, hm⟩ := hvia via hmem
        exact ⟨m, .through (List.mem_singleton_self _) hm⟩

theorem withinAs_of_mem_walkAll : ∀ (libs : List (String × Library)) (above : List String)
    (e : List String × Library), e ∈ walkAll above libs → WithinAs above libs e
  | [], _, _, h => by cases h
  | (own, l) :: rest, above, e, h => by
      rw [walkAll, List.mem_append] at h
      have hleft : ∀ {via : String} {m : Library}, Within [(own, l)] via m →
          Within ((own, l) :: rest) via m := fun hm =>
        within_cons.mpr
          ((within_cons.mp hm).imp_right (.imp_right fun h => absurd h not_within_nil))
      rcases h with h | h
      · obtain ⟨path, last, he, hwithin, hvia⟩ := withinAs_of_mem_walk l above own e h
        exact ⟨path, last, he, hleft hwithin, fun via hmem => (hvia via hmem).imp fun _ => hleft⟩
      · obtain ⟨path, last, he, hwithin, hvia⟩ := withinAs_of_mem_walkAll rest above e h
        exact ⟨path, last, he, within_cons.mpr (.inr (.inr hwithin)), fun via hmem =>
          (hvia via hmem).imp fun _ hm => within_cons.mpr (.inr (.inr hm))⟩

end

/-- The walk comes to libraries under the alias of one of those at the top first. -/
theorem first_of_mem_walkAll {libs : List (String × Library)} {above : List String}
    {e : List String × Library} (h : e ∈ walkAll above libs) :
    ∃ own ∈ Table.names libs, ∃ path, e.1 = above ++ own :: path := by
  induction libs with
  | nil => cases h
  | cons x libs ih =>
    obtain ⟨own, l⟩ := x
    rw [walkAll, List.mem_append] at h
    rcases h with h | h
    · refine ⟨own, List.mem_cons_self .., ?_⟩
      rw [walk_eq] at h
      rcases List.mem_cons.mp h with rfl | h
      · exact ⟨[], rfl⟩
      · obtain ⟨path, last, he, -⟩ := withinAs_of_mem_walkAll _ _ e h
        exact ⟨path ++ [last], by simp [he]⟩
    · obtain ⟨own', hmem, hpath⟩ := ih h
      exact ⟨own', List.mem_cons_of_mem _ hmem, hpath⟩

theorem Reached.ne_nil {libs : List (String × Library)} {path : List String} {l : Library}
    (h : Reached libs path l) : path ≠ [] := by
  cases h <;> exact List.cons_ne_nil _ _

/-- A library that is reached along aliases is the first one of the walk under them. -/
theorem Reached.walkAll_eq {libs : List (String × Library)} {path : List String} {l : Library}
    (h : Reached libs path l) : ∀ above : List String, ∃ before after,
      walkAll above libs = before ++ (above ++ path, l) :: after ∧
        ∀ e ∈ before, e.1 ≠ above ++ path := by
  -- the libraries before the one that is found have other aliases
  have hearlier : ∀ (libs : List (String × Library)) (above : List String) (own : String)
      (path : List String), ∀ e ∈ walkAll above (libs.takeWhile fun e => e.1 ≠ own),
        e.1 ≠ above ++ own :: path := by
    intro libs above own path e he heq
    obtain ⟨own', hmem, path', hpath⟩ := first_of_mem_walkAll he
    obtain ⟨e', he', rfl⟩ := List.mem_map.mp hmem
    rw [heq, List.append_cancel_left_eq] at hpath
    simpa [(List.cons.inj hpath).1] using List.mem_takeWhile_imp he'
  induction h with
  | @here libs own l hl =>
    intro above
    obtain ⟨after, hsplit⟩ := Table.eq_append_of_get? hl
    refine ⟨walkAll above (libs.takeWhile fun e => e.1 ≠ own),
      walkAll (above ++ [own]) l.libraries ++ walkAll above after, ?_, hearlier libs above own []⟩
    rw [congrArg (walkAll above) hsplit, walkAll_append, walkAll, walk_eq, List.cons_append]
  | @through libs via path m l hm hreached ih =>
    intro above
    obtain ⟨after, hsplit⟩ := Table.eq_append_of_get? hm
    obtain ⟨before, rest, hwalk, hother⟩ := ih (above ++ [via])
    rw [List.append_assoc, List.singleton_append] at hwalk hother
    refine ⟨walkAll above (libs.takeWhile fun e => e.1 ≠ via) ++ (above ++ [via], m) :: before,
      rest ++ walkAll above after, ?_, ?_⟩
    · rw [congrArg (walkAll above) hsplit, walkAll_append, walkAll, walk_eq, hwalk]
      simp
    · rw [List.forall_mem_append, List.forall_mem_cons]
      refine ⟨hearlier libs above via path, ?_, hother⟩
      simpa using hreached.ne_nil.symm

/-- What a reached library uses is reached. -/
theorem Reached.snoc {libs : List (String × Library)} {path : List String} {inner : String}
    {l k : Library} (h : Reached libs path l) (hk : Table.get? inner l.libraries = some k) :
    Reached libs (path ++ [inner]) k := by
  induction h with
  | here hl => exact .through hl (.here hk)
  | through hm _ ih => exact .through hm (ih hk)

end Library

namespace Symbols

variable {kind : SymbolKind}

/-! ## Symbols along the walk -/

/-- The symbols that a library of the walk brings. -/
def walkOffers (kind : SymbolKind) (e : List String × Library) : Table (Symbol kind.Template) :=
  ownOffers kind (Library.aliasOf e.1) (e.1.getLast?.getD "") e.2

mutual

/-- A library offers what each library on the walk through it offers. -/
theorem offers_eq_walk : ∀ (l : Library) (above : List String) (own : String),
    offers kind (Library.aliasOf (above ++ [own])) own l =
      (Library.walk (above ++ [own]) l).flatMap (walkOffers kind)
  | ⟨annotations, declared, libraries, location, usage⟩, above, own => by
      rw [offers, Library.walk, List.flatMap_cons, ← Library.aliasBefore_snoc,
        offersOfAll_eq_walk libraries, walkOffers, List.getLast?_concat]
      rfl

/-- The symbols of libraries come in the order of the walk. -/
theorem offersOfAll_eq_walk : ∀ (libs : List (String × Library)) (above : List String),
    offersOfAll kind (Library.aliasBefore above) libs =
      (Library.walkAll above libs).flatMap (walkOffers kind)
  | [], _ => rfl
  | (own, l) :: rest, above => by
      rw [offersOfAll, Library.walkAll, List.flatMap_append, Library.aliasBefore_append,
        offers_eq_walk l, offersOfAll_eq_walk rest]

end

theorem get?_flatMap {α β : Type} {key : String} {f : α → Table β} (xs : List α) :
    Table.get? key (xs.flatMap f) = xs.findSome? fun x => Table.get? key (f x) := by
  induction xs with
  | nil => rfl
  | cons x xs ih =>
    rw [List.flatMap_cons, Table.get?_append, ih, List.findSome?_cons]
    cases Table.get? key (f x) <;> rfl

variable {inner x : String}

/-- Symbols under an alias go by names that begin with it. -/
theorem keyAlias_of_mem_keyed {l : Library} {aliasName keyAlias : String} {s : Symbol kind.Template}
    (hi : '.' ∉ inner.toList) (hx : '.' ∉ x.toList) (hnames : ∀ m ∈ l.declares kind, '.' ∉ m.toList)
    (h : (inner ++ "." ++ x, s) ∈ keyed kind l.declared (some l) (some aliasName) keyAlias) :
    keyAlias = inner ∧ x ∈ l.declares kind := by
  obtain ⟨m, t, hmem, hm, -⟩ := mem_keyed.mp h
  have hdeclares : m ∈ l.declares kind := List.mem_map_of_mem hmem
  rw [qualified] at hm
  split at hm
  · -- without an alias the name stands alone, and it has no dot
    exact absurd (by simp [hm]) (hnames m hdeclares)
  · obtain ⟨rfl, rfl⟩ := alias_eq_of_qualified hi hx hm
    exact ⟨rfl, hdeclares⟩

/-- A library of the walk has a name with one dot if it is used under the alias before the dot and
declares the name after it. -/
theorem get?_walkOffers_eq_some {path : List String} {own : String} {l : Library}
    (hinner : inner ≠ "") (hi : '.' ∉ inner.toList) (hx : '.' ∉ x.toList)
    (hnames : ∀ m ∈ l.declares kind, '.' ∉ m.toList) :
    (∃ s, Table.get? (inner ++ "." ++ x) (walkOffers kind (path ++ [own], l)) = some s) ↔
      own = inner ∧ x ∈ l.declares kind := by
  rw [walkOffers, List.getLast?_concat, Option.getD_some, ownOffers]
  constructor
  · rintro ⟨s, hs⟩
    have hmem := Table.mem_of_get? hs
    -- the whole alias is the inner name only if nothing goes before it
    have hwhole : Library.aliasOf (path ++ [own]) = inner → own = inner := by
      intro heq
      rw [← Library.aliasBefore_append, Library.aliasBefore] at heq
      split at heq
      · rwa [String.empty_append] at heq
      · exact absurd (by simp [← heq]) hi
    rcases List.mem_append.mp hmem with hmem | hmem
    · exact (keyAlias_of_mem_keyed hi hx hnames hmem).imp_left hwhole
    · split at hmem
      · cases hmem
      · refine (keyAlias_of_mem_keyed hi hx hnames hmem).imp_left fun heq => ?_
        split at heq
        · exact hwhole heq
        · exact heq
  · rintro ⟨rfl, hdeclares⟩
    obtain ⟨⟨m, t⟩, hmem, rfl⟩ := List.mem_map.mp hdeclares
    have hown : own.isEmpty = false := String.isEmpty_eq_false_iff.mpr hinner
    refine Option.ne_none_iff_exists'.mp (Table.get?_ne_none (a :=
      ⟨t, some l, some (Library.aliasOf (path ++ [own]))⟩) ?_)
    have hkeyed : (own ++ "." ++ m, (⟨t, some l, some (Library.aliasOf (path ++ [own]))⟩ :
        Symbol kind.Template)) ∈
          keyed kind l.declared (some l) (some (Library.aliasOf (path ++ [own]))) own :=
      mem_keyed.mpr ⟨m, t, hmem, by simp [qualified, hown], rfl⟩
    by_cases hsame : own = Library.aliasOf (path ++ [own])
    · exact List.mem_append_left _ (hsame ▸ hkeyed)
    · rw [if_neg hsame, if_neg (by simp [hown])]
      exact List.mem_append_right _ hkeyed

/-- What a library that is used by another one declares, it has under its own alias. -/
theorem get?_walkOffers_self {path : List String} {l : Library} {t : kind.Template}
    (hpath : path ≠ []) (hinner : inner ≠ "") (hi : '.' ∉ inner.toList) (hx : '.' ∉ x.toList)
    (hnames : ∀ m ∈ l.declares kind, '.' ∉ m.toList)
    (ht : (l.declared.templates kind).get? x = some t) :
    Table.get? (inner ++ "." ++ x) (walkOffers kind (path ++ [inner], l)) =
      some ⟨t, some l, some (Library.aliasOf path ++ "." ++ inner)⟩ := by
  have hempty : inner.isEmpty = false := String.isEmpty_eq_false_iff.mpr hinner
  have hne : inner ≠ Library.aliasOf path ++ "." ++ inner := by
    intro heq
    exact hi (heq ▸ by simp)
  rw [walkOffers, List.getLast?_concat, Option.getD_some, ownOffers, Library.aliasOf_snoc hpath,
    if_neg hne, if_neg (by simp [hempty]), Table.get?_append]
  have hlong : Table.get? (inner ++ "." ++ x) (keyed kind l.declared (some l)
      (some (Library.aliasOf path ++ "." ++ inner)) (Library.aliasOf path ++ "." ++ inner)) =
        none :=
    Table.get?_eq_none fun s hs => hne (keyAlias_of_mem_keyed hi hx hnames hs).1.symm
  have hname : qualified inner x = inner ++ "." ++ x := if_neg (by simp [hempty])
  rw [hlong, Option.none_or, ← hname, get?_keyed, ht]
  rfl

/-! ## References through an import of a library -/

/-- A name that means something as it is written means that in every library. -/
theorem lookup_of_get? {s : Symbols} {scope : Option String} {name : String}
    {sym : Symbol kind.Template} (h : (s.table kind).get? name = some sym) :
    s.lookup kind scope name = .ok sym := by
  rw [lookup, find.eq_def]
  simp only [h, Option.some_or]

/-- Where aliases and names have no dots, the walk comes to libraries under such aliases, which
declare such names. -/
theorem undotted_of_mem_walkAll {libs : List (String × Library)}
    (hdots : ∀ own m, Library.Within libs own m →
      '.' ∉ own.toList ∧ ∀ n ∈ m.declares kind, '.' ∉ n.toList)
    {e : List String × Library} (he : e ∈ Library.walkAll [] libs) : ∃ p own, e.1 = p ++ [own] ∧
      (∀ c ∈ e.1, '.' ∉ c.toList) ∧ ∀ n ∈ e.2.declares kind, '.' ∉ n.toList := by
  obtain ⟨p, own, hpath, hwithin, hvia⟩ := Library.withinAs_of_mem_walkAll _ _ e he
  rw [List.nil_append] at hpath
  refine ⟨p, own, hpath, ?_, (hdots own e.2 hwithin).2⟩
  rw [hpath, List.forall_mem_append, List.forall_mem_singleton]
  exact ⟨fun c hc => (hvia c hc).elim fun m hm => (hdots c m hm).1, (hdots own e.2 hwithin).1⟩

/-- A name that a library of the walk has is one of its symbols, unless one that comes before it has
the name. -/
theorem get?_ofApi_walk {a : Api} {name : String} {before after : List (List String × Library)}
    {e : List String × Library} {s : Symbol kind.Template}
    (hroot : (a.declared.templates kind).get? name = none)
    (hwalk : Library.walkAll [] a.libraries = before ++ e :: after)
    (he : Table.get? name (walkOffers kind e) = some s) :
    ((ofApi a).table kind).get? name =
      (before.findSome? fun e => Table.get? name (walkOffers kind e)).or (some s) := by
  have hwhole : offersOfAll kind "" a.libraries =
      (Library.walkAll [] a.libraries).flatMap (walkOffers kind) := offersOfAll_eq_walk _ []
  rw [get?_ofApi hroot, hwhole, get?_flatMap, hwalk, List.findSome?_append, List.findSome?_cons, he]

/-- **A reference in a library finds the library's own import, unless another library takes its
name.** Seen from the library reached along `path`, the name `inner.x` refers to what the library
that it uses as `inner` declares as `x` exactly if no library that comes before that one in the walk
is used under the alias `inner` and declares `x`. Aliases and names have no dots, the alias `inner`
is not empty, and the root document declares nothing by the very name `inner.x`. -/
theorem lookup_inner_iff (kind : SymbolKind) (a : Api) (path : List String) (inner x : String)
    (l k : Library) (t : kind.Template)
    (hdots : ∀ own m, Library.Within a.libraries own m →
      '.' ∉ own.toList ∧ ∀ n ∈ m.declares kind, '.' ∉ n.toList)
    (hinner : inner ≠ "")
    (hroot : (a.declared.templates kind).get? (inner ++ "." ++ x) = none)
    (hl : Library.Reached a.libraries path l) (hk : Table.get? inner l.libraries = some k)
    (ht : (k.declared.templates kind).get? x = some t) :
    (ofApi a).lookup kind (some (Library.aliasOf path)) (inner ++ "." ++ x) =
        .ok ⟨t, some k, some (Library.aliasOf path ++ "." ++ inner)⟩ ↔
      ∀ e ∈ (Library.walkAll [] a.libraries).takeWhile (fun e => e.1 ≠ path ++ [inner]),
        e.1.getLast? = some inner → x ∉ e.2.declares kind := by
  obtain ⟨before, after, hwalk, hother⟩ := (hl.snoc hk).walkAll_eq []
  rw [List.nil_append] at hwalk hother
  have hbefore : (Library.walkAll [] a.libraries).takeWhile (fun e => e.1 ≠ path ++ [inner]) =
      before := by
    rw [hwalk, List.takeWhile_append_of_pos (by simpa using hother),
      List.takeWhile_cons_of_neg (by simp), List.append_nil]
  have hself : (path ++ [inner], k) ∈ Library.walkAll [] a.libraries := by simp [hwalk]
  have hmem : ∀ e ∈ before, e ∈ Library.walkAll [] a.libraries := fun e he => by simp [hwalk, he]
  obtain ⟨-, -, -, hpathDots, hnames⟩ := undotted_of_mem_walkAll hdots hself
  have hi : '.' ∉ inner.toList := hpathDots inner (by simp)
  have hx : '.' ∉ x.toList := hnames x (List.mem_map_of_mem (Table.mem_of_get? ht))
  have hget := get?_ofApi_walk hroot hwalk (get?_walkOffers_self hl.ne_nil hinner hi hx hnames ht)
  have hoffers : ∀ e ∈ before,
      (∃ s, Table.get? (inner ++ "." ++ x) (walkOffers kind e) = some s) ↔
        e.1.getLast? = some inner ∧ x ∈ e.2.declares kind := by
    intro e he
    obtain ⟨p, own, hpath, -, hnames⟩ := undotted_of_mem_walkAll hdots (hmem e he)
    obtain ⟨path', lib⟩ := e
    subst hpath
    rw [List.getLast?_concat, Option.some_inj]
    exact get?_walkOffers_eq_some hinner hi hx hnames
  rw [hbefore]
  cases hfirst : before.findSome? fun e => Table.get? (inner ++ "." ++ x) (walkOffers kind e) with
  | none =>
    -- nothing before it offers the name
    rw [hfirst, Option.none_or] at hget
    rw [List.findSome?_eq_none_iff] at hfirst
    refine iff_of_true (lookup_of_get? hget) fun e he hown hdeclares => ?_
    obtain ⟨s, hs⟩ := (hoffers e he).mpr ⟨hown, hdeclares⟩
    exact Option.some_ne_none s (hs.symm.trans (hfirst e he))
  | some s =>
    rw [hfirst, Option.some_or] at hget
    obtain ⟨e, he, hs⟩ := List.exists_of_findSome?_eq_some hfirst
    refine iff_of_false (fun hfound => ?_) fun hfree => ?_
    · -- the symbol that comes first goes by the whole alias of another library
      obtain rfl := Except.ok.inj ((lookup_of_get? hget).symm.trans hfound)
      have halias := aliasName_of_mem_ownOffers (Table.mem_of_get? hs)
      obtain ⟨p, own, hpath, hdots', -⟩ := undotted_of_mem_walkAll hdots (hmem e he)
      refine hother e he (Library.alias_inj (by simp [hpath]) (by simp) hdots' hpathDots ?_)
      rw [Library.aliasOf_snoc hl.ne_nil]
      exact Option.some.inj halias.symm
    · obtain ⟨hown, hdeclares⟩ := (hoffers e he).mp ⟨s, hs⟩
      exact hfree e he hown hdeclares

/-- A document with two libraries that use different libraries under the same alias. -/
def sameAlias : Api :=
  { (default : Api) with libraries := [
    ("first", traitLibrary "first.raml" [] [("inner", traitLibrary "one.raml" ["paged"] [])]),
    ("second", traitLibrary "second.raml" [] [("inner", traitLibrary "two.raml" ["paged"] [])])] }

/-- No alias of `sameAlias` and none of its traits has a dot in its name. -/
theorem sameAlias_plain : ∀ own m, Library.Within sameAlias.libraries own m →
    '.' ∉ own.toList ∧ ∀ n ∈ m.declares .trait, '.' ∉ n.toList := by
  intro own m h
  simp only [sameAlias, traitLibrary, Library.within_cons, Library.not_within_nil, or_false] at h
  rcases h with ⟨rfl, rfl⟩ | ⟨rfl, rfl⟩ | ⟨rfl, rfl⟩ | ⟨rfl, rfl⟩ <;> exact ⟨by decide, by decide⟩

/-- The library that comes first finds its own import. -/
theorem first_finds_inner :
    (ofApi sameAlias).lookup .trait (some "first") "inner.paged" =
      .ok ⟨⟨Method.named "paged", none⟩, some (traitLibrary "one.raml" ["paged"] []),
        some "first.inner"⟩ := by
  refine (lookup_inner_iff .trait sameAlias ["first"] "inner" "paged"
    (traitLibrary "first.raml" [] [("inner", traitLibrary "one.raml" ["paged"] [])]) _ _
    sameAlias_plain (by decide) rfl (.here rfl) rfl rfl).mpr fun e he hown => ?_
  have hfirst : e.1 = ["first"] := by
    simp [sameAlias, Library.walkAll, Library.walk_eq, traitLibrary] at he
    rw [he]
  rw [hfirst] at hown
  exact absurd hown (by decide)

/-- The library that comes after it finds the import of the first one, although neither the root
document nor a library that the root imports goes by that name. -/
theorem second_finds_other_inner :
    ¬∀ (kind : SymbolKind) (a : Api) (path : List String) (inner x : String) (l k : Library)
      (t : kind.Template),
      (∀ own m, Library.Within a.libraries own m →
        '.' ∉ own.toList ∧ ∀ n ∈ m.declares kind, '.' ∉ n.toList) →
      inner ≠ "" → (a.declared.templates kind).get? (inner ++ "." ++ x) = none →
      inner ∉ Table.names a.libraries → Library.Reached a.libraries path l →
      Table.get? inner l.libraries = some k → (k.declared.templates kind).get? x = some t →
      (ofApi a).lookup kind (some (Library.aliasOf path)) (inner ++ "." ++ x) =
        .ok ⟨t, some k, some (Library.aliasOf path ++ "." ++ inner)⟩ := by
  intro h
  -- the claim is made at the second library, whose own `inner` is meant
  have hclaimed := h .trait sameAlias ["second"] "inner" "paged"
    (traitLibrary "second.raml" [] [("inner", traitLibrary "two.raml" ["paged"] [])]) _ _
    sameAlias_plain (by decide) rfl (by decide) (.here rfl) rfl rfl
  have hfound : ((ofApi sameAlias).lookup .trait (some "second") "inner.paged").toOption.bind
      Symbol.aliasName = some "first.inner" := by decide +kernel
  rw [show "inner.paged" = "inner" ++ "." ++ "paged" by decide] at hfound
  change ((ofApi sameAlias).lookup .trait (some (Library.aliasOf ["second"]))
    ("inner" ++ "." ++ "paged")).toOption.bind Symbol.aliasName = _ at hfound
  rw [hclaimed] at hfound
  exact absurd hfound (by decide)

end Symbols
end Raml
