import Raml.Normal.Entity
import Raml.Proofs.Outcome
import Raml.Proofs.Shape.Nodes
import Raml.Proofs.Table

/-!
# Normal entities

What it means that an entity is in normal form, from parameters up to declarations, and that
normalizing brings it there. Only the folding of a flat body looks at more than one field: it is
done before the bodies themselves are normalized, so that what it merges is normalized with them.

What is in normal form is left alone: there is no flat body to fold, no shortcut to take out, and
every marked parameter has its name. So normalizing a second time changes nothing
(`normalize_again`), and a library that several others use may be normalized with each of them.
-/

namespace Raml

/-! ## Parameters -/

/-- A parameter has the name that its key says, and one whose key marks it as optional says whether
it is required. -/
def Parameter.IsNormalUnder (key : String) (p : Parameter) : Prop :=
  Text.endsWith "?" key = true → p.name = Text.dropLast 1 key ∧ p.required ≠ none

/-- All parameters are normal under their keys. -/
def Parameter.TableIsNormal (t : Table Parameter) : Prop := ∀ e ∈ t, e.2.IsNormalUnder e.1

theorem Parameter.normalize_isNormal (key : String) (p : Parameter) :
    (p.normalize key).IsNormalUnder key := by
  intro hkey
  rw [normalize, if_pos hkey]
  refine ⟨rfl, ?_⟩
  cases p.required <;> simp

/-- Every parameter of a normalized table is normal under its key. -/
theorem Parameter.normalizeTable_isNormal (t : Table Parameter) :
    TableIsNormal (normalizeTable t) := by
  intro e he
  obtain ⟨⟨key, p⟩, -, rfl⟩ := List.mem_map.mp he
  exact p.normalize_isNormal key

/-! ## Bodies -/

/-- A type and the items beside it are free of shortcuts, by themselves and together. -/
structure PairIsNormal (type items : Option Shape) : Prop where
  together : Shape.pairIsNormal type items = true
  type : Shape.OptionIsNormal type
  items : Shape.OptionIsNormal items

theorem collapse_normalize_isNormal (type items : Option Shape) :
    PairIsNormal
      (Shape.collapse (Shape.normalizeOption type) (Shape.normalizeOption items)).1
      (Shape.collapse (Shape.normalizeOption type) (Shape.normalizeOption items)).2 := by
  obtain ⟨ht, hi, hpair⟩ := Shape.collapse_isNormal (Shape.normalizeOption_isNormal type)
    (Shape.normalizeOption_isNormal items)
  exact ⟨hpair, ht, hi⟩

/-- A body without shortcuts. -/
structure Body.IsNormal (b : Body) : Prop where
  pair : PairIsNormal b.type b.items
  properties : Shape.EntriesAreNormal b.properties
  headers : Parameter.TableIsNormal b.headers

theorem Body.normalize_isNormal (b : Body) : b.normalize.IsNormal :=
  ⟨collapse_normalize_isNormal b.type b.items, Shape.normalizeEntries_isNormal b.properties,
    Parameter.normalizeTable_isNormal b.headers⟩

/-- Bodies without shortcuts, and with at most one way to say what holds for a media type. -/
structure Bodies.IsNormal (b : Bodies) : Prop where
  oneWay : b.flat = none ∨ b.byMediaType = []
  flat : ∀ f, b.flat = some f → f.IsNormal
  byMediaType : ∀ e ∈ b.byMediaType, e.2.IsNormal

/-- Folded bodies are given in one way. -/
theorem Bodies.fold_oneWay {b b' : Bodies} (h : b.fold = .ok b') :
    b'.flat = none ∨ b'.byMediaType = [] := by
  obtain ⟨annotations, flat, media⟩ := b
  match flat, media with
  | none, media =>
    cases h
    exact .inl rfl
  | some flat, [] =>
    cases h
    exact .inr rfl
  | some flat, m :: ms =>
    -- only here is anything folded, and then the flat body is gone
    obtain ⟨all, -, h⟩ := bind_eq_ok.mp h
    cases pure_eq_ok.mp h
    exact .inl rfl

/-- Normalizing bodies gives something normal, if it gives anything. -/
theorem Bodies.normalize_isNormal {b b' : Bodies} (h : b.normalize = .ok b') : b'.IsNormal := by
  obtain ⟨folded, hfold, h⟩ := bind_eq_ok.mp h
  cases pure_eq_ok.mp h
  refine ⟨?_, ?_, ?_⟩
  · -- normalizing the bodies neither adds nor removes one
    rcases fold_oneWay hfold with hflat | hmedia
    · exact .inl (congrArg (Option.map Body.normalize) hflat)
    · exact .inr (congrArg (Table.mapValues Body.normalize) hmedia)
  · intro f hf
    obtain ⟨flat, -, rfl⟩ := Option.map_eq_some_iff.mp hf
    exact flat.normalize_isNormal
  · intro e he
    obtain ⟨body, -, hbody⟩ := Table.of_mem_mapValues he
    exact hbody ▸ body.normalize_isNormal

/-! ## Methods and resources -/

/-- A response without shortcuts. -/
structure Response.IsNormal (r : Response) : Prop where
  headers : Parameter.TableIsNormal r.headers
  bodies : r.bodies.IsNormal

theorem Response.normalize_isNormal {r r' : Response} (h : r.normalize = .ok r') :
    r'.IsNormal := by
  obtain ⟨bodies, hbodies, h⟩ := bind_eq_ok.mp h
  cases pure_eq_ok.mp h
  exact ⟨Parameter.normalizeTable_isNormal r.headers, Bodies.normalize_isNormal hbodies⟩

/-- A method without shortcuts. -/
structure Method.IsNormal (m : Method) : Prop where
  queryParameters : Parameter.TableIsNormal m.queryParameters
  headers : Parameter.TableIsNormal m.headers
  queryString : Shape.OptionIsNormal m.queryString
  bodies : m.bodies.IsNormal
  responses : ∀ e ∈ m.responses, e.2.IsNormal

theorem Method.normalize_isNormal {m m' : Method} (h : m.normalize = .ok m') : m'.IsNormal := by
  obtain ⟨bodies, hbodies, h⟩ := bind_eq_ok.mp h
  obtain ⟨responses, hresponses, h⟩ := bind_eq_ok.mp h
  cases pure_eq_ok.mp h
  refine ⟨Parameter.normalizeTable_isNormal m.queryParameters,
    Parameter.normalizeTable_isNormal m.headers, Shape.normalizeOption_isNormal m.queryString,
    Bodies.normalize_isNormal hbodies, ?_⟩
  intro e he
  obtain ⟨response, -, hresponse⟩ := Table.of_mem_mapValuesM hresponses he
  exact Response.normalize_isNormal hresponse

/-- A resource without shortcuts, apart from the resources below it. -/
structure Resource.IsNormal (r : Resource) : Prop where
  uriParameters : Parameter.TableIsNormal r.uriParameters
  methods : ∀ e ∈ r.methods, e.2.IsNormal

/-- Normalizing a resource gives something normal, method by method. -/
theorem Resource.normalize_isNormal {r r' : Resource} (h : r.normalize = .ok r') :
    r'.IsNormal := by
  obtain ⟨methods, hmethods, h⟩ := bind_eq_ok.mp h
  cases pure_eq_ok.mp h
  refine ⟨Parameter.normalizeTable_isNormal r.uriParameters, ?_⟩
  intro e he
  obtain ⟨method, -, hmethod⟩ := Table.of_mem_mapValuesM hmethods he
  exact Method.normalize_isNormal hmethod

/-! ## Declarations -/

/-- A declared type without shortcuts. -/
structure TypeDeclaration.IsNormal (t : TypeDeclaration) : Prop where
  pair : PairIsNormal t.type t.items
  properties : Shape.EntriesAreNormal t.properties

theorem TypeDeclaration.normalize_isNormal (t : TypeDeclaration) : t.normalize.IsNormal :=
  ⟨collapse_normalize_isNormal t.type t.items, Shape.normalizeEntries_isNormal t.properties⟩

/-- All declared types are without shortcuts. -/
def Declarations.IsNormal (d : Declarations) : Prop := ∀ e ∈ d.types, e.2.IsNormal

theorem Declarations.normalize_isNormal (d : Declarations) : d.normalize.IsNormal := by
  intro e he
  obtain ⟨t, -, ht⟩ := Table.of_mem_mapValues he
  exact ht ▸ t.normalize_isNormal

/-! ## Normalizing again -/

/-- A parameter that is normal under its key is kept. -/
theorem Parameter.normalize_of_isNormalUnder {key : String} {p : Parameter}
    (h : p.IsNormalUnder key) : p.normalize key = p := by
  unfold normalize
  split
  · rename_i hkey
    obtain ⟨hname, hrequired⟩ := h hkey
    have hsays : p.required.or (some (.exact false)) = p.required :=
      Option.or_of_isSome (Option.isSome_iff_ne_none.mpr hrequired)
    rw [← hname, hsays]
  · rfl

theorem Parameter.normalizeTable_of_isNormal {t : Table Parameter} (h : TableIsNormal t) :
    normalizeTable t = t := by
  have hsame : ∀ e ∈ t, (e.1, e.2.normalize e.1) = e :=
    fun e he => Prod.ext rfl (normalize_of_isNormalUnder (h e he))
  exact (List.map_congr_left hsame).trans (List.map_id t)

/-- A pair of type and items that is normal is left as it is. -/
theorem PairIsNormal.collapse_normalize {type items : Option Shape} (h : PairIsNormal type items) :
    Shape.collapse (Shape.normalizeOption type) (Shape.normalizeOption items) = (type, items) := by
  rw [Shape.normalizeOption_of_isNormal h.type, Shape.normalizeOption_of_isNormal h.items,
    Shape.collapse_of_pairIsNormal h.together]

theorem Body.normalize_of_isNormal {b : Body} (h : b.IsNormal) : b.normalize = b := by
  unfold normalize
  rw [h.pair.collapse_normalize, Shape.normalizeEntries_of_isNormal h.properties,
    Parameter.normalizeTable_of_isNormal h.headers]

/-- Bodies in normal form have nothing to fold. -/
theorem Bodies.fold_of_oneWay {b : Bodies} (h : b.flat = none ∨ b.byMediaType = []) :
    b.fold = .ok b := by
  obtain ⟨annotations, flat, media⟩ := b
  rcases h with rfl | rfl
  · rfl
  · cases flat <;> rfl

/-- Normal bodies are kept. -/
theorem Bodies.normalize_of_isNormal {b : Bodies} (h : b.IsNormal) : b.normalize = .ok b := by
  have hflat : b.flat.map Body.normalize = b.flat := by
    cases hf : b.flat with
    | none => rfl
    | some f => exact congrArg some (Body.normalize_of_isNormal (h.flat f hf))
  have hmedia : b.byMediaType.mapValues Body.normalize = b.byMediaType :=
    Table.mapValues_eq_self fun e he => Body.normalize_of_isNormal (h.byMediaType e he)
  unfold normalize
  rw [bind_of_eq_ok (fold_of_oneWay h.oneWay), hflat, hmedia]
  rfl

theorem Response.normalize_of_isNormal {r : Response} (h : r.IsNormal) : r.normalize = .ok r := by
  unfold normalize
  rw [bind_of_eq_ok (Bodies.normalize_of_isNormal h.bodies),
    Parameter.normalizeTable_of_isNormal h.headers]
  rfl

theorem Method.normalize_of_isNormal {m : Method} (h : m.IsNormal) : m.normalize = .ok m := by
  have hresponses : Table.mapValuesM Response.normalize m.responses = .ok m.responses :=
    Table.mapValuesM_eq_self fun e he => Response.normalize_of_isNormal (h.responses e he)
  unfold normalize
  rw [bind_of_eq_ok (Bodies.normalize_of_isNormal h.bodies), bind_of_eq_ok hresponses,
    Parameter.normalizeTable_of_isNormal h.queryParameters,
    Parameter.normalizeTable_of_isNormal h.headers,
    Shape.normalizeOption_of_isNormal h.queryString]
  rfl

/-- A normal resource is kept. -/
theorem Resource.normalize_of_isNormal {r : Resource} (h : r.IsNormal) : r.normalize = .ok r := by
  have hmethods : Table.mapValuesM Method.normalize r.methods = .ok r.methods :=
    Table.mapValuesM_eq_self fun e he => Method.normalize_of_isNormal (h.methods e he)
  unfold normalize
  rw [bind_of_eq_ok hmethods, Parameter.normalizeTable_of_isNormal h.uriParameters]
  cases r
  rfl

theorem TypeDeclaration.normalize_of_isNormal {t : TypeDeclaration} (h : t.IsNormal) :
    t.normalize = t := by
  unfold normalize
  rw [h.pair.collapse_normalize, Shape.normalizeEntries_of_isNormal h.properties]

theorem Declarations.normalize_of_isNormal {d : Declarations} (h : d.IsNormal) :
    d.normalize = d := by
  have htypes : d.types.mapValues TypeDeclaration.normalize = d.types :=
    Table.mapValues_eq_self fun e he => TypeDeclaration.normalize_of_isNormal (h e he)
  unfold normalize
  rw [htypes]

mutual

/-- A library is normalized once and for all, with the libraries in it. -/
theorem Library.normalize_normalize : ∀ l : Library, l.normalize.normalize = l.normalize
  | ⟨_, declared, libraries, _, _⟩ => by
      rw [Library.normalize, Library.normalize, Library.normalizeAll_normalizeAll libraries,
        Declarations.normalize_of_isNormal declared.normalize_isNormal]

theorem Library.normalizeAll_normalizeAll : ∀ libs : List (String × Library),
    Library.normalizeAll (Library.normalizeAll libs) = Library.normalizeAll libs
  | [] => rfl
  | (_, l) :: rest => by
      rw [Library.normalizeAll, Library.normalizeAll, Library.normalize_normalize l,
        Library.normalizeAll_normalizeAll rest]

end

/-- A step that makes something normal, and leaves alone what is normal, may be taken twice. -/
theorem bind_self_of_normal {ε α : Type} {f : α → Except ε α} {C : α → Prop}
    (hnormal : ∀ {a b}, f a = .ok b → C b) (hsame : ∀ {a}, C a → f a = .ok a) (a : α) :
    f a >>= f = f a := by
  cases h : f a with
  | error e => rfl
  | ok b => exact hsame (hnormal h)

/-- **Normalizing a second time changes nothing.** A shape is left as it is if and only if no
declaration in it could be written shorter. From shapes this goes up to bodies, declared types,
parameters, methods, resources and libraries; where normalizing fails, it has failed already. -/
theorem normalize_again :
    (∀ s : Shape, s.normalize.normalize = s.normalize ∧
      (s.normalize = s ↔ ∀ n ∈ s.nodes, ¬n.IsShortcut)) ∧
    (∀ b : Body, b.normalize.normalize = b.normalize) ∧
    (∀ b : Bodies, b.normalize >>= Bodies.normalize = b.normalize) ∧
    (∀ t : TypeDeclaration, t.normalize.normalize = t.normalize) ∧
    (∀ t : Table Parameter, Parameter.normalizeTable (Parameter.normalizeTable t) =
      Parameter.normalizeTable t) ∧
    (∀ m : Method, m.normalize >>= Method.normalize = m.normalize) ∧
    (∀ r : Resource, r.normalize >>= Resource.normalize = r.normalize) ∧
    ∀ l : Library, l.normalize.normalize = l.normalize := by
  refine ⟨fun s => ⟨?_, ?_⟩, ?_, ?_, ?_, ?_, ?_, ?_, Library.normalize_normalize⟩
  · exact Shape.normalize_of_isNormal (Shape.normalize_isNormal s)
  · exact Shape.normalize_eq_self_iff.trans (Shape.isNormal_iff_nodes s)
  · exact fun b => Body.normalize_of_isNormal b.normalize_isNormal
  · exact bind_self_of_normal Bodies.normalize_isNormal Bodies.normalize_of_isNormal
  · exact fun t => TypeDeclaration.normalize_of_isNormal t.normalize_isNormal
  · exact fun t => Parameter.normalizeTable_of_isNormal (Parameter.normalizeTable_isNormal t)
  · exact bind_self_of_normal Method.normalize_isNormal Method.normalize_of_isNormal
  · exact bind_self_of_normal Resource.normalize_isNormal Resource.normalize_of_isNormal

end Raml
