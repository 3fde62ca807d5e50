import Raml.Proofs.Resolution.Symbols

/-!
# The symbols of corresponding libraries

Two documents whose libraries correspond, each to one with the same templates that uses
corresponding libraries under the same aliases, have the same names for the same templates. So a
name means the same in both (`lookup_mirrored`), whatever else the libraries hold.
-/

namespace Raml

/-- A relation that holds of libraries only if they have the same templates and use libraries
under the same aliases that it holds of, too. -/
structure Library.IsMirror (R : Library → Library → Prop) : Prop where
  templates : ∀ {l k}, R l k → ∀ kind, k.declared.templates kind = l.declared.templates kind
  libraries : ∀ {l k}, R l k → Table.Matches (fun _ => R) l.libraries k.libraries

/-- Two symbols of one template, known under the same alias, of corresponding libraries. -/
structure Symbol.Mirrored {α : Type} (R : Library → Library → Prop) (s t : Symbol α) : Prop where
  template : t.template = s.template
  library : Option.Rel R s.library t.library
  aliasName : t.aliasName = s.aliasName

namespace Symbols

variable {kind : SymbolKind} {R : Library → Library → Prop}

/-- Tables with the same names for corresponding symbols. -/
abbrev TableMirrored (R : Library → Library → Prop) :
    Table (Symbol kind.Template) → Table (Symbol kind.Template) → Prop :=
  Table.Matches fun _ => Symbol.Mirrored R

theorem keyed_mirrored {d d' : Declarations} {library library' : Option Library}
    {aliasName : Option String} {keyAlias : String}
    (hd : d'.templates kind = d.templates kind) (hlibrary : Option.Rel R library library') :
    TableMirrored R (keyed kind d library aliasName keyAlias)
      (keyed kind d' library' aliasName keyAlias) := by
  rw [TableMirrored, Table.Matches, keyed, keyed, hd, List.forall₂_map_left_iff,
    List.forall₂_map_right_iff, List.forall₂_same]
  exact fun _ _ => ⟨rfl, rfl, hlibrary, rfl⟩

theorem ownOffers_mirrored (hR : Library.IsMirror R) {l k : Library} {aliasName own : String}
    (h : R l k) :
    TableMirrored R (ownOffers kind aliasName own l) (ownOffers kind aliasName own k) := by
  have hkeyed : ∀ keyAlias, TableMirrored R
      (keyed kind l.declared (some l) (some aliasName) keyAlias)
      (keyed kind k.declared (some k) (some aliasName) keyAlias) :=
    fun _ => keyed_mirrored (hR.templates h kind) (.some h)
  rw [ownOffers, ownOffers]
  refine (hkeyed aliasName).append ?_
  split
  · exact .nil
  · exact hkeyed _

mutual

/-- Libraries that mirror each other offer symbols that do. -/
theorem offers_mirrored (hR : Library.IsMirror R) :
    ∀ (l k : Library) (aliasName own : String), R l k →
      TableMirrored R (offers kind aliasName own l) (offers kind aliasName own k)
  | ⟨annotations, declared, libraries, location, usage⟩, k, aliasName, own, h => by
      rw [offers_eq, offers_eq]
      exact (ownOffers_mirrored hR h).append
        (offersOfAll_mirrored hR libraries k.libraries _ (hR.libraries h))

theorem offersOfAll_mirrored (hR : Library.IsMirror R) :
    ∀ (libs libs' : List (String × Library)) (before : String),
      Table.Matches (fun _ => R) libs libs' →
      TableMirrored R (offersOfAll kind before libs) (offersOfAll kind before libs')
  | [], libs', before, h => by
      cases h
      exact .nil
  | (own, l) :: rest, libs', before, h => by
      obtain ⟨⟨own', l'⟩, rest', ⟨hown, hl⟩, hrest, rfl⟩ := List.forall₂_cons_left_iff.mp h
      obtain rfl : own' = own := hown
      rw [offersOfAll, offersOfAll]
      exact (offers_mirrored hR l l' _ _ hl).append
        (offersOfAll_mirrored hR rest rest' before hrest)

end

/-- A name means what the root document declares, or else what a library does. -/
theorem get?_ofApi_append {a : Api} {key : String} : ((ofApi a).table kind).get? key =
    Table.get? key (keyed kind a.declared none none "" ++ offersOfAll kind "" a.libraries) := by
  have hempty : (empty.table kind).get? key = none := by cases kind <;> rfl
  rw [ofApi, get?_addLibraries, get?_declare, hempty, Option.none_or, Table.get?_append]

/-- Documents with the same templates of their own, whose libraries correspond. -/
structure ApiMirrored (R : Library → Library → Prop) (a b : Api) : Prop where
  templates : ∀ kind, b.declared.templates kind = a.declared.templates kind
  libraries : Table.Matches (fun _ => R) a.libraries b.libraries

variable {scope : Option String} {name : String}

/-- What a table has for a name as it is written, or else seen from a library. -/
def meant {α : Type} (t : Table (Symbol α)) (scope : Option String) (name : String) :
    Option (Symbol α) :=
  (t.get? name).or (scope.bind fun aliasName =>
    if aliasName.isEmpty then none else t.get? (aliasName ++ "." ++ name))

/-- A name is found if it means something. -/
theorem find_eq_ok {α : Type} {t : Table (Symbol α)} {s : Symbol α} :
    find kind t scope name = .ok s ↔ meant t scope name = some s := by
  rw [find.eq_def, meant]
  cases scope with
  | none => cases t.get? name <;> simp
  | some aliasName =>
    rw [Option.bind_some]
    dsimp only
    split
    · rename_i hfound
      rw [hfound, Except.ok.injEq, Option.some.injEq]
    · rename_i hfound
      rw [hfound]
      simp only [reduceCtorEq]

/-- A name means the same in tables that mirror each other. -/
theorem meant_mirrored {t t' : Table (Symbol kind.Template)}
    (h : ∀ key, Option.Rel (Symbol.Mirrored R) (t.get? key) (t'.get? key)) :
    Option.Rel (Symbol.Mirrored R) (meant t scope name) (meant t' scope name) := by
  have hor : ∀ {x x' y y' : Option (Symbol kind.Template)}, Option.Rel (Symbol.Mirrored R) x x' →
      Option.Rel (Symbol.Mirrored R) y y' → Option.Rel (Symbol.Mirrored R) (x.or y) (x'.or y') := by
    intro x x' y y' hx hy
    cases hx with
    | some hx => exact .some hx
    | none => exact hy
  refine hor (h name) ?_
  cases scope with
  | none => exact .none
  | some aliasName =>
    rw [Option.bind_some, Option.bind_some]
    split
    · exact .none
    · exact h _

variable {a b : Api} {s : Symbol kind.Template}

/-- What a name means in one document, it means in the other one. -/
theorem lookup_mirrored (hR : Library.IsMirror R) (h : ApiMirrored R a b)
    (hs : (ofApi a).lookup kind scope name = .ok s) :
    ∃ t, (ofApi b).lookup kind scope name = .ok t ∧ s.Mirrored R t := by
  have hget : ∀ key, Option.Rel (Symbol.Mirrored R) (((ofApi a).table kind).get? key)
      (((ofApi b).table kind).get? key) := by
    intro key
    rw [get?_ofApi_append, get?_ofApi_append]
    exact ((keyed_mirrored (h.templates kind) .none).append
      (offersOfAll_mirrored hR a.libraries b.libraries "" h.libraries)).get?
  have hmeant : Option.Rel (Symbol.Mirrored R) (meant ((ofApi a).table kind) scope name)
      (meant ((ofApi b).table kind) scope name) := meant_mirrored hget
  -- a name is found in one document exactly if it is in the other
  rw [lookup, find_eq_ok] at hs
  rw [hs] at hmeant
  cases hmeant' : meant ((ofApi b).table kind) scope name with
  | none =>
    rw [hmeant'] at hmeant
    cases hmeant
  | some t =>
    rw [hmeant'] at hmeant
    cases hmeant with
    | some h => exact ⟨t, find_eq_ok.mpr hmeant', h⟩

end Symbols
end Raml
