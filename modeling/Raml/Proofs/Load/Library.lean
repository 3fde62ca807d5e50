import Mathlib.Data.List.Nodup
import Mathlib.Data.List.Perm.Subperm
import Mathlib.Logic.Relation
import Raml.Load.Library
import Raml.Proofs.Load.Journal
import Raml.Proofs.Outcome
import Raml.Proofs.Read.Checked

/-!
# Libraries that use one another

Locations with the references between them are a graph, and reading libraries walks it depth first:
the chain holds the locations on the way from the root document, and the shelf those whose libraries
are complete. `Shelf.Sound` is what holds all the way. What matters in it is that the shelf is
closed under references and has nothing in common with the chain, so that taking a library from the
shelf never hides a way back to a library that is still being read.

The walk ends because no location comes twice in the chain. `loadUses_spec` puts it together: with
finitely many documents that all read, it fails exactly if a cycle or a document of the first chain
can be reached, and else every library that can be reached is read once and put wherever it is used.
-/

namespace Raml

open Relation (ReflTransGen TransGen)

/-! ## The graph of references -/

namespace Access

variable (a : Access)

/-- The library at a location as it is written, before those that it uses are put into it, and the
folder from which its references start. -/
def draft (location : String) : Except Error (Library × String) := do
  let read ← (a.loadDocument [] location).outcome
  let library ← Library.build location read.entries
  let folder ← Location.folder location
  return (library, folder)

/-- What reading the document at a location puts on record. -/
def record (location : String) : Journal := (a.loadDocument [] location).record

/-- The library at one location uses the one at another. -/
def Uses (l m : String) : Prop :=
  ∃ library folder, a.draft l = .ok (library, folder) ∧
    ∃ e ∈ library.declared.uses, Location.join folder e.2 = .ok m

/-- References from a folder lead to a location, directly or through libraries. -/
def Reaches (base : String) (uses : Table String) (m : String) : Prop :=
  ∃ e ∈ uses, ∃ l, Location.join base e.2 = .ok l ∧ ReflTransGen a.Uses l m

/-- A location from which reading libraries does not come back: it lies on a cycle, or it is one of
those that are being read from the start. -/
def IsLoop (chain : List String) (m : String) : Prop := TransGen a.Uses m m ∨ m ∈ chain

/-- All references of a document lead to documents of a table or of the chain. -/
def RefersTo (docs chain : List String) (base : String) (uses : Table String) : Prop :=
  ∀ e ∈ uses, ∃ l, Location.join base e.2 = .ok l ∧ (l ∈ docs ∨ l ∈ chain)

/-- All documents of a table read, and none refers to anything else than the table and the chain. -/
def IsComplete (docs chain : List String) : Prop :=
  ∀ l ∈ docs, ∃ library folder, a.draft l = .ok (library, folder) ∧
    RefersTo docs chain folder library.declared.uses

/-- A library can be drafted if its document can be read and describes one. -/
theorem draft_eq_ok {l folder : String} {library : Library}
    (h : a.draft l = .ok (library, folder)) :
    ∃ read, (a.loadDocument [] l).outcome = .ok read ∧
      Library.build l read.entries = .ok library ∧ Location.folder l = .ok folder := by
  obtain ⟨read, hread, h⟩ := bind_eq_ok.mp h
  obtain ⟨library', hbuild, h⟩ := bind_eq_ok.mp h
  obtain ⟨folder', hfolder, h⟩ := bind_eq_ok.mp h
  obtain ⟨rfl, rfl⟩ := Prod.mk.inj (pure_eq_ok.mp h)
  exact ⟨read, hread, hbuild, hfolder⟩

theorem draft_of_uses {a : Access} {l folder : String} {uses : Table String}
    (h : (a.draft l).toOption.map (fun d => (d.1.declared.uses, d.2)) = some (uses, folder)) :
    ∃ library, a.draft l = .ok (library, folder) ∧ library.declared.uses = uses := by
  obtain ⟨⟨library, folder'⟩, hdraft, hshown⟩ := toOption_map_eq_some.mp h
  obtain ⟨huses, rfl⟩ := Prod.mk.inj hshown
  exact ⟨library, hdraft, huses⟩

/-- A library that was built knows where it comes from and has no alias twice. -/
theorem build_eq_ok {l : String} {entries : List (Value × Value)} {library : Library}
    (h : Library.build l entries = .ok library) :
    library.location = l ∧ library.declared.uses.Distinct := by
  rw [Library.build] at h
  split at h
  · rename_i read hread
    obtain rfl := Except.ok.inj h
    have hdistinct : read.declared.uses.Distinct := Library.distinct_uses hread
    exact ⟨rfl, hdistinct⟩
  · cases h

end Access

/-! ## What holds of the shelf -/

namespace Shelf

/-- The libraries in a table are those of the shelf at the locations that the references mean. -/
def Links (s : Shelf) (base : String) (uses : Table String) (libraries : Table Library) : Prop :=
  ∀ e ∈ uses, ∃ m k, Location.join base e.2 = .ok m ∧ libraries.get? e.1 = some k ∧
    s.libraries.get? m = some k

/-- Every library on the shelf is the one that is written at its location, with libraries of the
shelf for all that it uses. -/
def IsLinked (a : Access) (s : Shelf) : Prop :=
  ∀ l k, s.libraries.get? l = some k → ∃ library folder, a.draft l = .ok (library, folder) ∧
    k = { library with libraries := k.libraries } ∧ k.location = l ∧
    s.Links folder library.declared.uses k.libraries

/-- Another shelf has all that this one has. -/
def Grows (s s' : Shelf) : Prop :=
  ∀ l k, s.libraries.get? l = some k → s'.libraries.get? l = some k

/-- The journal after documents have been read one after another. -/
def journalOf (a : Access) (start : Journal) (order : List String) : Journal :=
  order.foldl (fun j l => j.append (a.record l)) start

/--
What holds of the shelf all the way: `chain` holds the locations that are being read from the start,
and `path` those on the way from the root document. The libraries on the shelf were all `reached`.
-/
structure Sound (a : Access) (start : Journal) (chain : List String) (reached : String → Prop)
    (path : List String) (s : Shelf) : Prop where
  distinct : s.libraries.Distinct
  apart : ∀ l ∈ s.libraries.names, l ∉ chain ++ path
  reached : ∀ l ∈ s.libraries.names, reached l
  closed : ∀ l ∈ s.libraries.names, ∀ m, a.Uses l m → m ∈ s.libraries.names
  acyclic : ∀ l ∈ s.libraries.names, ¬TransGen a.Uses l l
  linked : s.IsLinked a
  journal : ∃ order : List String, order.Perm (s.libraries.names ++ path) ∧
    s.journal = journalOf a start order

theorem grows_refl (s : Shelf) : s.Grows s := fun _ _ h => h

/-- A shelf that grows twice has grown. -/
theorem Grows.trans {s t u : Shelf} (h : s.Grows t) (h' : t.Grows u) : s.Grows u :=
  fun l k hl => h' l k (h l k hl)

/-- What links to libraries goes on doing so when the shelf grows. -/
theorem Links.mono {s s' : Shelf} {base : String} {uses : Table String}
    {libraries : Table Library} (h : s.Links base uses libraries) (hs : s.Grows s') :
    s'.Links base uses libraries := by
  intro e he
  obtain ⟨m, k, hm, hk, hget⟩ := h e he
  exact ⟨m, k, hm, hk, hs m k hget⟩

theorem mem_names_of_get? {s : Shelf} {l : String} {k : Library}
    (h : s.libraries.get? l = some k) : l ∈ s.libraries.names :=
  List.mem_map_of_mem (Table.mem_of_get? h)

variable {a : Access} {start : Journal} {chain path : List String} {reached : String → Prop}
  {s : Shelf}

/-- From the shelf there is no way off it. -/
theorem Sound.mem_of_reflTransGen (h : s.Sound a start chain reached path) {l m : String}
    (hl : l ∈ s.libraries.names) (hm : ReflTransGen a.Uses l m) : m ∈ s.libraries.names := by
  induction hm with
  | refl => exact hl
  | tail _ hstep ih => exact h.closed _ ih _ hstep

theorem sound_empty : Sound a start chain reached [] ⟨start, []⟩ where
  distinct := List.nodup_nil
  apart := by simp [Table.names]
  reached := by simp [Table.names]
  closed := by simp [Table.names]
  acyclic := by simp [Table.names]
  linked := by simp [IsLinked, Table.get?]
  journal := ⟨[], List.Perm.refl _, rfl⟩

/-- A document that is begun goes to the end of the way, and on record. -/
theorem Sound.begin (h : s.Sound a start chain reached path) {l : String}
    (hl : l ∉ s.libraries.names) :
    Sound a start chain reached (path ++ [l]) { s with journal := s.journal.append (a.record l) }
    where
  distinct := h.distinct
  -- only the path is longer, and the location on it is new
  apart := by
    intro m hm hmem
    rw [← List.append_assoc, List.mem_append, List.mem_singleton] at hmem
    rcases hmem with hmem | rfl
    · exact h.apart m hm hmem
    · exact hl hm
  reached := h.reached
  closed := h.closed
  acyclic := h.acyclic
  linked := h.linked
  journal := by
    obtain ⟨order, hperm, hjournal⟩ := h.journal
    refine ⟨order ++ [l], ?_, ?_⟩
    · rw [← List.append_assoc]
      exact hperm.append_right [l]
    · rw [hjournal, journalOf, journalOf, List.foldl_append]
      rfl

/-! ### Putting a library on the shelf -/

section Put

variable {l folder : String} {k library : Library} {libraries : Table Library}

theorem names_put (hnew : l ∉ s.libraries.names) :
    (s.libraries.set l k).names = s.libraries.names ++ [l] := by
  rw [Table.names_set, if_neg (by simpa [Table.has_iff_mem_names] using hnew)]

theorem forall_mem_names_put {P : String → Prop} (hnew : l ∉ s.libraries.names)
    (hold : ∀ m ∈ s.libraries.names, P m) (hl : P l) :
    ∀ m ∈ (s.libraries.set l k).names, P m := by
  rw [names_put hnew, List.forall_mem_append]
  exact ⟨hold, List.forall_mem_singleton.mpr hl⟩

/-- Nothing that is on the shelf gives way to what is new. -/
theorem grows_put (hnew : l ∉ s.libraries.names) (k : Library) :
    s.Grows { s with libraries := s.libraries.set l k } := by
  intro m k' hm
  have hne : m ≠ l := fun heq => hnew (heq ▸ mem_names_of_get? hm)
  exact (Table.get?_set_of_ne hne _ _).trans hm

/-- What a library uses is on the shelf once its references are linked. -/
theorem Links.mem_names (hlinks : s.Links folder library.declared.uses libraries)
    (hdraft : a.draft l = .ok (library, folder)) {m : String} (hm : a.Uses l m) :
    m ∈ s.libraries.names := by
  obtain ⟨library', folder', hdraft', e, he, hjoin⟩ := hm
  cases hdraft.symm.trans hdraft'
  obtain ⟨m', k, hjoin', -, hget⟩ := hlinks e he
  cases hjoin.symm.trans hjoin'
  exact mem_names_of_get? hget

/-- A library that is put on the shelf with its own libraries linked keeps everything linked. -/
theorem IsLinked.put (h : s.IsLinked a) (hnew : l ∉ s.libraries.names)
    (hdraft : a.draft l = .ok (library, folder))
    (hlinks : s.Links folder library.declared.uses libraries) :
    IsLinked a { s with libraries := s.libraries.set l { library with libraries } } := by
  intro m k hk
  by_cases hm : m = l
  · subst hm
    have hk' : { library with libraries } = k :=
      Option.some.inj ((Table.get?_set_self ..).symm.trans hk)
    obtain ⟨read, -, hbuild, -⟩ := a.draft_eq_ok hdraft
    subst hk'
    exact ⟨library, folder, hdraft, rfl, (Access.build_eq_ok hbuild).1,
      hlinks.mono (grows_put hnew _)⟩
  · obtain ⟨library', folder', hdraft', heq, hlocation, hlinks'⟩ :=
      h m k ((Table.get?_set_of_ne hm _ _).symm.trans hk)
    exact ⟨library', folder', hdraft', heq, hlocation, hlinks'.mono (grows_put hnew _)⟩

/-- A library that is complete leaves the way and goes on the shelf. -/
theorem Sound.finish (h : s.Sound a start chain reached (path ++ [l]))
    (hdraft : a.draft l = .ok (library, folder)) (hreached : reached l) (hchain : l ∉ chain ++ path)
    (hlinks : s.Links folder library.declared.uses libraries) :
    Sound a start chain reached path
      { s with libraries := s.libraries.set l { library with libraries } } := by
  have hnew : l ∉ s.libraries.names := fun hl => h.apart l hl (by simp)
  have huses : ∀ m, a.Uses l m → m ∈ s.libraries.names := fun m hm => hlinks.mem_names hdraft hm
  exact {
    distinct := Table.distinct_set h.distinct
    apart := by
      refine forall_mem_names_put hnew (fun m hm hpath => h.apart m hm ?_) hchain
      rw [← List.append_assoc]
      exact List.mem_append_left _ hpath
    reached := forall_mem_names_put hnew h.reached hreached
    closed := by
      rw [names_put hnew]
      refine List.forall_mem_append.mpr ⟨fun m hm next hnext => ?_, ?_⟩
      · exact List.mem_append_left _ (h.closed m hm next hnext)
      · exact List.forall_mem_singleton.mpr fun next hnext =>
          List.mem_append_left _ (huses next hnext)
    acyclic := by
      refine forall_mem_names_put hnew h.acyclic fun hcycle => ?_
      -- a way back to `l` starts on the shelf, and there is no way off it
      obtain ⟨next, hnext, hback⟩ := Relation.TransGen.head'_iff.mp hcycle
      exact hnew (h.mem_of_reflTransGen (huses next hnext) hback)
    linked := h.linked.put hnew hdraft hlinks
    journal := by
      obtain ⟨order, hperm, hjournal⟩ := h.journal
      refine ⟨order, ?_, hjournal⟩
      rw [names_put hnew, List.append_assoc]
      exact hperm.trans (List.Perm.append_left _ List.perm_append_comm) }

end Put

end Shelf

/-! ## The walk -/

namespace Library

open Access (Uses IsLoop RefersTo IsComplete Reaches)
open Raml.Shelf (Sound Grows)

variable {a : Access} {start : Journal} {docs chain path : List String} {reached : String → Prop}

/-- A step fails on a chain that ends where it was before, and among the locations that it leads to
there is one from which reading does not come back. -/
def IsCyclic {α : Type} (a : Access) (chain : List String) (leads : String → Prop)
    (r : EStateM.Result Error Shelf α) : Prop :=
  ∃ front last s, r = .error (.cyclic (front ++ [last])) s ∧ last ∈ front ∧
    ∃ m, leads m ∧ a.IsLoop chain m

/-- What the step that reads the library at a location does, started from a shelf. -/
def LoadsTo (a : Access) (start : Journal) (chain : List String) (reached : String → Prop)
    (path : List String) (l : String) (s : Shelf) (r : EStateM.Result Error Shelf Library) : Prop :=
  (∃ k s', r = .ok k s' ∧ Sound a start chain reached path s' ∧ s.Grows s' ∧
    s'.libraries.get? l = some k) ∨
  IsCyclic a chain (Relation.ReflTransGen a.Uses l) r

/-- A way of reading libraries does so from any shelf, for references of the last document of
`path`. -/
def LoadsFrom (a : Access) (start : Journal) (docs chain : List String) (reached : String → Prop)
    (path : List String) (load : String → Shelving Library) : Prop :=
  ∀ l s, l ∈ docs ∨ l ∈ chain → reached l → (∀ y ∈ path, TransGen a.Uses y l) →
    Sound a start chain reached path s → LoadsTo a start chain reached path l s (load l s)

/-- What the step that reads the libraries named by references does, started from a shelf. -/
def UsesLoadTo (a : Access) (start : Journal) (chain : List String) (reached : String → Prop)
    (path : List String) (base : String) (libraries : Table Library) (uses : Table String)
    (s : Shelf) (r : EStateM.Result Error Shelf (Table Library)) : Prop :=
  (∃ libraries' s', r = .ok libraries' s' ∧ Sound a start chain reached path s' ∧ s.Grows s' ∧
    s'.Links base uses libraries' ∧
    ∀ n, n ∉ uses.names → libraries'.get? n = libraries.get? n) ∨
  IsCyclic a chain (a.Reaches base uses) r

theorem loadUses_cons {load : String → Shelving Library} {base aliasName reference l : String}
    {libraries : Table Library} {rest : Table String} {s : Shelf}
    (hl : Location.join base reference = .ok l) :
    loadUses load base libraries ((aliasName, reference) :: rest) s =
      match load l s with
      | .ok k s' => loadUses load base (libraries.set aliasName k) rest s'
      | .error e s' => .error e s' := by
  rw [loadUses, bind_of_ok (ofExcept_of_ok hl)]
  cases h : load l s with
  | ok k s' => rw [bind_of_ok h]
  | error e s' => rw [bind_of_error h]

/-- **Reading what a document uses**, given a way of reading each library. -/
theorem loadUses_of_load {load : String → Shelving Library} {base : String}
    (hload : LoadsFrom a start docs chain reached path load) :
    ∀ (uses : Table String) (libraries : Table Library) (s : Shelf), uses.Distinct →
      RefersTo docs chain base uses →
      (∀ e ∈ uses, ∀ l, Location.join base e.2 = .ok l →
        reached l ∧ ∀ y ∈ path, TransGen a.Uses y l) →
      Sound a start chain reached path s →
      UsesLoadTo a start chain reached path base libraries uses s
        (loadUses load base libraries uses s) := by
  intro uses
  induction uses with
  | nil =>
    intro libraries s _ _ _ hs
    exact .inl ⟨libraries, s, rfl, hs, s.grows_refl, by simp [Shelf.Links], fun _ _ => rfl⟩
  | cons e rest ih =>
    intro libraries s hdistinct hrefers hpath hs
    obtain ⟨aliasName, reference⟩ := e
    obtain ⟨hnot, hrest⟩ := List.nodup_cons.mp hdistinct
    obtain ⟨l, hl, hknown⟩ := hrefers _ (List.mem_cons_self ..)
    obtain ⟨hreached, hway⟩ := hpath _ (List.mem_cons_self ..) l hl
    rw [loadUses_cons hl]
    -- either the library of this reference or one of those after it may fail
    rcases hload l s hknown hreached hway hs with
      ⟨k, s₁, hk, hs₁, hgrows, hget⟩ | ⟨front, last, s₁, herror, hlast, m, hm, hloop⟩
    · rw [hk]
      rcases ih (libraries.set aliasName k) s₁ hrest
        (fun e he => hrefers e (List.mem_cons_of_mem _ he))
        (fun e he => hpath e (List.mem_cons_of_mem _ he)) hs₁ with
        ⟨libraries', s₂, hok, hs₂, hgrows₂, hlinks, hothers⟩ |
          ⟨front, last, s₂, herror, hlast, m, ⟨e, he, hm⟩, hloop⟩
      · refine .inl ⟨libraries', s₂, hok, hs₂, hgrows.trans hgrows₂, ?_, ?_⟩
        · intro e he
          rcases List.mem_cons.mp he with rfl | he
          · -- no later reference has the same alias
            refine ⟨l, k, hl, ?_, hgrows₂ l k hget⟩
            rw [hothers aliasName hnot, Table.get?_set_self]
          · exact hlinks e he
        · intro n hn
          rw [Table.names, List.map_cons, List.mem_cons, not_or] at hn
          rw [hothers n hn.2, Table.get?_set_of_ne hn.1]
      · exact .inr ⟨front, last, s₂, herror, hlast, m, ⟨e, List.mem_cons_of_mem _ he, hm⟩, hloop⟩
    · rw [herror]
      exact .inr ⟨front, last, s₁, rfl, hlast, m, ⟨_, List.mem_cons_self .., l, hl, hm⟩, hloop⟩

/-- What is done for a location that is neither in the chain nor on the shelf. -/
theorem loadNew_of_draft {load : List String → String → Shelving Library} {l folder : String}
    {library : Library} {s : Shelf} (h : a.draft l = .ok (library, folder)) :
    loadNew a load chain l s =
      match loadUses (load (chain ++ [l])) folder library.libraries library.declared.uses
        { s with journal := s.journal.append (a.record l) } with
      | .ok libraries s' => .ok { library with libraries }
          { s' with libraries := s'.libraries.set l { library with libraries } }
      | .error e s' => .error e s' := by
  obtain ⟨read, hread, hbuild, hfolder⟩ := a.draft_eq_ok h
  have hload : Shelving.ofLoad (a.loadDocument [] l) s =
      .ok read { s with journal := s.journal.append (a.record l) } := by
    rw [Shelving.ofLoad, (a.records_loadDocument [] l).eq, hread]
    rfl
  rw [loadNew, bind_of_ok hload, bind_of_ok (ofExcept_of_ok hbuild),
    bind_of_ok (ofExcept_of_ok hfolder)]
  cases h : loadUses (load (chain ++ [l])) folder library.libraries library.declared.uses
      { s with journal := s.journal.append (a.record l) } with
  | ok libraries s' =>
    rw [bind_of_ok h]
    rfl
  | error e s' => rw [bind_of_error h]

/-- **Reading a library anew**, given a way of reading those that it uses. It is on the way until
all of them have been read. -/
theorem loadNew_of_load {load : List String → String → Shelving Library} {l : String} {s : Shelf}
    (hload : LoadsFrom a start docs chain reached (path ++ [l]) (load (chain ++ path ++ [l])))
    (hdocs : a.IsComplete docs chain) (hclosed : ∀ l m, reached l → a.Uses l m → reached m)
    (hl : l ∈ docs) (hreached : reached l) (hway : ∀ y ∈ path, TransGen a.Uses y l)
    (hchain : l ∉ chain ++ path) (hs : Sound a start chain reached path s)
    (hnames : l ∉ s.libraries.names) :
    LoadsTo a start chain reached path l s (loadNew a load (chain ++ path) l s) := by
  obtain ⟨library, folder, hdraft, hrefers⟩ := hdocs l hl
  obtain ⟨read, -, hbuild, -⟩ := a.draft_eq_ok hdraft
  have hstep : ∀ e ∈ library.declared.uses, ∀ m, Location.join folder e.2 = .ok m → a.Uses l m :=
    fun e he m hm => ⟨library, folder, hdraft, e, he, hm⟩
  -- what the library uses is reached, and lies behind everything on the way
  have hpath : ∀ e ∈ library.declared.uses, ∀ m, Location.join folder e.2 = .ok m →
      reached m ∧ ∀ y ∈ path ++ [l], TransGen a.Uses y m := by
    intro e he m hm
    refine ⟨hclosed l m hreached (hstep e he m hm), fun y hy => ?_⟩
    rcases List.mem_append.mp hy with hy | hy
    · exact (hway y hy).tail (hstep e he m hm)
    · rw [List.mem_singleton.mp hy]
      exact .single (hstep e he m hm)
  rw [loadNew_of_draft hdraft]
  rcases loadUses_of_load hload library.declared.uses library.libraries _
    (Access.build_eq_ok hbuild).2 hrefers hpath (hs.begin hnames) with
    ⟨libraries, s', hok, hs', hgrows, hlinks, -⟩ |
      ⟨front, last, s', herror, hlast, m, ⟨e, he, n, hn, hm⟩, hloop⟩
  · rw [hok]
    have hnew : l ∉ s'.libraries.names := fun hmem => hs'.apart l hmem (by simp)
    exact .inl ⟨_, _, rfl, hs'.finish hdraft hreached hchain hlinks,
      hgrows.trans (Shelf.grows_put hnew _), Table.get?_set_self ..⟩
  · rw [herror]
    exact .inr ⟨front, last, s', rfl, hlast, m, hm.head (hstep e he n hn), hloop⟩

/-- A library is loaded unless it is open already or stands on the shelf. -/
theorem load_succ {depth : Nat} {l : String} {s : Shelf} :
    load a (depth + 1) chain l s =
      if l ∈ chain then .error (.cyclic (chain ++ [l])) s
      else match s.libraries.get? l with
        | some k => .ok k s
        | none => loadNew a (load a depth) chain l s := by
  rw [load]
  by_cases h : l ∈ chain
  · rw [if_pos h]
    simp only [List.contains_iff_mem, h]
    rfl
  · rw [if_neg h]
    simp only [List.contains_iff_mem, h]
    change (match s.libraries.get? l with
      | some k => (pure k : Shelving Library)
      | none => loadNew a (load a depth) chain l) s = _
    cases s.libraries.get? l <;> rfl

/--
**Reading one library.** The bound is on how many can still be inside one another: the way holds no
location twice, and so no more than there are documents.
-/
theorem load_loadsFrom (hdocs : a.IsComplete docs chain)
    (hclosed : ∀ l m, reached l → a.Uses l m → reached m) :
    ∀ (depth : Nat) (path : List String), docs.length < depth + path.length → path.Nodup →
      (∀ y ∈ path, y ∈ docs) →
      LoadsFrom a start docs chain reached path (load a depth (chain ++ path)) := by
  intro depth
  induction depth with
  | zero =>
    intro path hbound hnodup hpath
    -- the way would hold more locations than there are documents
    have hlength : path.length ≤ docs.length := (hnodup.subperm hpath).length_le
    omega
  | succ depth ih =>
    intro path hbound hnodup hpath l s hknown hreached hway hs
    rw [load_succ]
    by_cases hchain : l ∈ chain ++ path
    · -- `l` is being read already: from the start, or on the way, and then it leads to itself
      rw [if_pos hchain]
      refine .inr ⟨chain ++ path, l, s, rfl, hchain, l, .refl, ?_⟩
      rcases List.mem_append.mp hchain with hl | hl
      · exact .inr hl
      · exact .inl (hway l hl)
    · rw [if_neg hchain]
      cases hget : s.libraries.get? l with
      | some k => exact .inl ⟨k, s, rfl, hs, s.grows_refl, hget⟩
      | none =>
        -- not in the chain and not on the shelf: one location more is on the way
        have hl : l ∈ docs := hknown.resolve_right fun h => hchain (List.mem_append_left _ h)
        have hnames : l ∉ s.libraries.names := by
          rw [← Table.has_iff_mem_names, Table.has, hget]
          simp
        have hnodup' : (path ++ [l]).Nodup := by
          rw [← List.concat_eq_append]
          exact List.Nodup.concat (fun h => hchain (List.mem_append_right _ h)) hnodup
        have hpath' : ∀ y ∈ path ++ [l], y ∈ docs := by
          simpa [or_imp, forall_and] using ⟨hpath, hl⟩
        have hload := ih (path ++ [l]) (by simp; omega) hnodup' hpath'
        rw [← List.append_assoc] at hload
        exact loadNew_of_load hload hdocs hclosed hl hreached hway hchain hs hnames

/--
What has been done when all libraries have been read: they are where they are used, at every level,
and each location that the references lead to was read exactly once, whoever uses it.
-/
structure IsLoaded (a : Access) (start : Journal) (base : String) (uses : Table String)
    (libraries : Table Library) (s : Shelf) : Prop where
  links : s.Links base uses libraries
  linked : s.IsLinked a
  names : ∀ m, m ∈ s.libraries.names ↔ a.Reaches base uses m
  journal : ∃ order : List String, order.Nodup ∧ (∀ m, m ∈ order ↔ a.Reaches base uses m) ∧
    s.journal = Shelf.journalOf a start order

/-- With nothing open any more, all libraries that were reached are loaded. -/
theorem isLoaded_of_sound {base : String} {uses : Table String} {libraries : Table Library}
    {s : Shelf} (hs : Sound a start chain (a.Reaches base uses) [] s)
    (hlinks : s.Links base uses libraries) : IsLoaded a start base uses libraries s := by
  have hnames : ∀ m, m ∈ s.libraries.names ↔ a.Reaches base uses m := by
    intro m
    refine ⟨hs.reached m, ?_⟩
    rintro ⟨e, he, l, hl, hm⟩
    obtain ⟨l', k, hl', -, hget⟩ := hlinks e he
    cases hl.symm.trans hl'
    exact hs.mem_of_reflTransGen (Shelf.mem_names_of_get? hget) hm
  obtain ⟨order, hperm, hjournal⟩ := hs.journal
  rw [List.append_nil] at hperm
  exact ⟨hlinks, hs.linked, hnames, order, hperm.nodup_iff.mpr hs.distinct,
    fun m => hperm.mem_iff.trans (hnames m), hjournal⟩

/--
**Reading libraries refuses exactly the references that run in a circle.** Over finitely many
documents that all read and refer to one another or to the chain, with a bound that lies above their
number: reading what a document uses fails with a cycle exactly if a location can be reached that
lies on one or is in the chain from the start, and the locations that the failure names end in one
that was there before. In all other cases it succeeds, and has done what `IsLoaded` says.
`Access.library` is the same with the bound that the store gives.
-/
theorem loadUses_spec (a : Access) (docs chain : List String) (base : String)
    (libraries : Table Library) (uses : Table String) (start : Journal) (depth : Nat)
    (hdepth : docs.length < depth) (hdocs : a.IsComplete docs chain)
    (huses : Access.RefersTo docs chain base uses) (hdistinct : uses.Distinct) :
    ((∃ c s, loadUses (load a depth chain) base libraries uses ⟨start, []⟩ =
        .error (.cyclic c) s) ↔ ∃ m, a.Reaches base uses m ∧ a.IsLoop chain m) ∧
      (∀ c s, loadUses (load a depth chain) base libraries uses ⟨start, []⟩ =
        .error (.cyclic c) s → ∃ front last, c = front ++ [last] ∧ last ∈ front) ∧
      ((¬∃ m, a.Reaches base uses m ∧ a.IsLoop chain m) →
        ∃ libraries' s, loadUses (load a depth chain) base libraries uses ⟨start, []⟩ =
          .ok libraries' s ∧ IsLoaded a start base uses libraries' s) := by
  have hclosed : ∀ l m, a.Reaches base uses l → a.Uses l m → a.Reaches base uses m := by
    rintro l m ⟨e, he, root, hroot, hl⟩ hm
    exact ⟨e, he, root, hroot, hl.tail hm⟩
  have hload : LoadsFrom a start docs chain (a.Reaches base uses) [] (load a depth chain) := by
    have hrun : LoadsFrom a start docs chain (a.Reaches base uses) []
        (load a depth (chain ++ [])) :=
      load_loadsFrom hdocs hclosed depth [] (by simpa using hdepth) List.nodup_nil (by simp)
    rwa [List.append_nil] at hrun
  rcases loadUses_of_load hload uses libraries ⟨start, []⟩ hdistinct huses
    (fun e he l hl => ⟨⟨e, he, l, hl, .refl⟩, by simp⟩) Shelf.sound_empty with
    ⟨libraries', s, hok, hs, -, hlinks, -⟩ | ⟨front, last, s, herror, hlast, m, hm, hloop⟩
  · have hloaded : IsLoaded a start base uses libraries' s := isLoaded_of_sound hs hlinks
    -- all that can be reached is on the shelf, where nothing runs in a circle
    have hfree : ¬∃ m, a.Reaches base uses m ∧ a.IsLoop chain m := by
      rintro ⟨m, hm, hcycle | hchain⟩
      · exact hs.acyclic m ((hloaded.names m).mpr hm) hcycle
      · exact hs.apart m ((hloaded.names m).mpr hm) (List.mem_append_left _ hchain)
    rw [hok]
    refine ⟨⟨?_, fun h => absurd h hfree⟩, ?_, fun _ => ⟨libraries', s, rfl, hloaded⟩⟩
    · rintro ⟨c, s', h⟩
      cases h
    · intro c s' h
      cases h
  · have hloops : ∃ m, a.Reaches base uses m ∧ a.IsLoop chain m := ⟨m, hm, hloop⟩
    rw [herror]
    refine ⟨⟨fun _ => hloops, fun _ => ⟨_, s, rfl⟩⟩, ?_, fun h => absurd hloops h⟩
    intro c s' h
    cases h
    exact ⟨front, last, rfl, hlast⟩

/-- Two libraries that use each other, and one that uses nothing. -/
def circle : Access where
  store := {
    read := fun l =>
      let text (uses : String) : List UInt8 := ("#%RAML 1.0 Library\n" ++ uses).toUTF8.toList
      if l = "first.raml" then .ok (text "uses:\n  next: second.raml\n")
      else if l = "second.raml" then .ok (text "uses:\n  next: first.raml\n")
      else if l = "third.raml" then .ok (text "usage: by all\n")
      else .error .location
    depth := 3 }
  settings := default

/-- The libraries, each with what it uses. -/
def circleUses : Table (Table String) :=
  [("first.raml", [("next", "second.raml")]), ("second.raml", [("next", "first.raml")]),
    ("third.raml", [])]

theorem circle_draft : ∀ p ∈ circleUses, ∃ library, circle.draft p.1 = .ok (library, ".") ∧
    library.declared.uses = p.2 := by
  have hdraft : ∀ p ∈ circleUses, (circle.draft p.1).toOption.map
      (fun d => (d.1.declared.uses, d.2)) = some (p.2, ".") := by decide +kernel
  exact fun p hp => Access.draft_of_uses (hdraft p hp)

theorem circle_join : ∀ l ∈ circleUses.names, Location.join "." l = .ok l := by decide

theorem circle_closed : ∀ p ∈ circleUses, ∀ e ∈ p.2, e.2 ∈ circleUses.names := by decide

theorem circle_uses {p : String × Table String} (hp : p ∈ circleUses) {e : String × String}
    (he : e ∈ p.2) : circle.Uses p.1 e.2 := by
  obtain ⟨library, hdraft, huses⟩ := circle_draft p hp
  exact ⟨library, ".", hdraft, e, huses ▸ he, circle_join e.2 (circle_closed p hp e he)⟩

theorem circle_isComplete : circle.IsComplete circleUses.names ["root.raml"] := by
  intro l hl
  obtain ⟨p, hp, rfl⟩ := List.mem_map.mp hl
  obtain ⟨library, hdraft, huses⟩ := circle_draft p hp
  refine ⟨library, ".", hdraft, huses ▸ fun e he => ?_⟩
  have hname := circle_closed p hp e he
  exact ⟨e.2, circle_join e.2 hname, .inl hname⟩

theorem circle_isLoop_first : circle.IsLoop ["root.raml"] "first.raml" := by
  have hfirst : circle.Uses "first.raml" "second.raml" :=
    circle_uses (p := ("first.raml", [("next", "second.raml")])) (by decide)
      (e := ("next", "second.raml")) (by decide)
  have hsecond : circle.Uses "second.raml" "first.raml" :=
    circle_uses (p := ("second.raml", [("next", "first.raml")])) (by decide)
      (e := ("next", "first.raml")) (by decide)
  exact .inl (.tail (.single hfirst) hsecond)

/-- The third library uses nothing, so from it there is no way to another one, nor back. -/
theorem circle_not_isLoop_third {m : String}
    (hm : Relation.ReflTransGen circle.Uses "third.raml" m) : ¬circle.IsLoop ["root.raml"] m := by
  have hleaf : ∀ n, ¬circle.Uses "third.raml" n := by
    obtain ⟨third, hdraft, huses⟩ := circle_draft ("third.raml", []) (by decide)
    rintro n ⟨library, folder, hdraft', e, he, -⟩
    cases hdraft.symm.trans hdraft'
    rw [huses] at he
    cases he
  rcases Relation.ReflTransGen.cases_head hm with rfl | ⟨n, hn, -⟩
  · rintro (hcycle | hchain)
    · obtain ⟨n, hn, -⟩ := Relation.TransGen.head'_iff.mp hcycle
      exact hleaf n hn
    · exact absurd hchain (by decide)
  · exact absurd hn (hleaf n)

/-- The first two libraries are refused, and the third is read once under both of its aliases. -/
theorem circle_loads :
    (∃ c s, loadUses (circle.library ["root.raml"]) "." [] [("ring", "first.raml")] ⟨.empty, []⟩ =
      .error (.cyclic c) s) ∧
    ∃ libraries s, loadUses (circle.library ["root.raml"]) "." []
        [("a", "third.raml"), ("b", "third.raml")] ⟨.empty, []⟩ = .ok libraries s ∧
      IsLoaded circle .empty "." [("a", "third.raml"), ("b", "third.raml")] libraries s := by
  -- the first document runs in a circle with the second, and the third one stands alone
  have hfirst : Location.join "." "first.raml" = .ok "first.raml" := circle_join _ (by decide)
  have hthird : Location.join "." "third.raml" = .ok "third.raml" := circle_join _ (by decide)
  refine ⟨(loadUses_spec circle _ ["root.raml"] "." [] [("ring", "first.raml")] .empty 4 (by decide)
    circle_isComplete ?_ (by simp [Table.Distinct, Table.names])).1.mpr
      ⟨"first.raml", ?_, circle_isLoop_first⟩,
    (loadUses_spec circle _ ["root.raml"] "." [] [("a", "third.raml"), ("b", "third.raml")] .empty 4
      (by decide) circle_isComplete ?_ (by simp [Table.Distinct, Table.names])).2.2 ?_⟩
  · intro e he
    rw [List.mem_singleton.mp he]
    exact ⟨"first.raml", hfirst, .inl (by decide)⟩
  · exact ⟨_, List.mem_singleton_self _, "first.raml", hfirst, .refl⟩
  · intro e he
    rcases List.mem_pair.mp he with rfl | rfl <;> exact ⟨"third.raml", hthird, .inl (by decide)⟩
  · rintro ⟨m, ⟨e, he, l, hl, hm⟩, hloop⟩
    have hroot : l = "third.raml" := by
      rcases List.mem_pair.mp he with rfl | rfl <;> exact Except.ok.inj (hl.symm.trans hthird)
    exact circle_not_isLoop_third (hroot ▸ hm) hloop

end Library
end Raml
