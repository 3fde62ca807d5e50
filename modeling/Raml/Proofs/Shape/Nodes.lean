import Mathlib.Algebra.BigOperators.Group.List.Basic
import Mathlib.Algebra.Order.Group.Multiset
import Raml.Proofs.Shape.Expression
import Raml.Proofs.Shape.Normal

/-!
# The nodes of a shape

`nodes` lists a shape and everything in it, at any depth. A shape is normal when none of its nodes
is a shortcut (`isNormal_iff_nodes`), and normalizing neither loses nor invents anything that the
nodes say (`normalize_keeps`).

The second statement is about sums over the nodes. Normalizing moves shapes from one place to
another and puts an array node where the built-in type `array` stood; the declarations that it
takes away are empty but for the shape that stays. So it keeps every sum of what does not depend on
the shapes in a node, counts an array node like the type `array` and the empty declaration as
nothing (`IsOwn`).
-/

namespace Raml.Shape

mutual

/-- A shape and all shapes in it, at any depth. -/
def nodes : Shape → List Shape
  | .scalar text => [.scalar text]
  | .reference name => [.reference name]
  | .array element => .array element :: element.nodes
  | .inline type properties items facets =>
    .inline type properties items facets ::
      (nodesOfOption type ++ nodesOfEntries properties ++ nodesOfOption items)

/-- The nodes of a shape that may be missing. -/
def nodesOfOption : Option Shape → List Shape
  | none => []
  | some shape => shape.nodes

/-- The nodes of properties. -/
def nodesOfEntries : List (String × Shape) → List Shape
  | [] => []
  | (_, shape) :: rest => shape.nodes ++ nodesOfEntries rest

end

/-! ## Shortcuts -/

/-- A declaration that could be written shorter. -/
inductive IsShortcut : Shape → Prop
  /-- The built-in type `array` beside elements that are no declaration. -/
  | elements {items : Shape} {properties : List (String × Shape)} {facets : List (String × Value)}
      (h : items.isInline = false) :
      IsShortcut (.inline (some (.scalar "array")) properties (some items) facets)
  /-- The built-in type `array` beside a declaration of elements that has a type of its own. -/
  | typedElements {element : Shape} {items : Option Shape}
      {properties inner : List (String × Shape)} {facets others : List (String × Value)} :
      IsShortcut (.inline (some (.scalar "array")) properties
        (some (.inline (some element) inner items others)) facets)
  /-- Nothing but an array. -/
  | wrapper {element : Shape} : IsShortcut (.inline (some (.array element)) [] none [])

theorem eq_scalar_of_isBareArray {s : Shape} (h : s.isBareArray = true) : s = .scalar "array" := by
  cases s with
  | scalar text => rw [eq_of_beq h]
  | _ => cases h

section Shortcuts

variable {type items : Option Shape} {properties : List (String × Shape)}
  {facets : List (String × Value)}

/-- A normal declaration could not be written shorter. -/
theorem not_isShortcut_of_isNormal (h : (inline type properties items facets).IsNormal) :
    ¬(inline type properties items facets).IsShortcut := by
  obtain ⟨-, -, -, hpair, hmore⟩ := h
  rintro (hitems | _ | _)
  · -- what is normal beside the type `array` is a declaration
    cases ‹Shape› with
    | inline => cases hitems
    | _ => cases hpair
  · cases hpair
  · cases hmore

theorem pairIsNormal_of_not_isShortcut (h : ¬(inline type properties items facets).IsShortcut) :
    pairIsNormal type items = true := by
  match type, items with
  | none, _ => rfl
  | some _, none => rfl
  | some t, some i =>
    by_cases harray : t.isBareArray = true
    · obtain rfl := eq_scalar_of_isBareArray harray
      match i with
      | .inline none _ _ _ => rfl
      | .inline (some _) _ _ _ => exact absurd .typedElements h
      | .scalar _ => exact absurd (.elements rfl) h
      | .reference _ => exact absurd (.elements rfl) h
      | .array _ => exact absurd (.elements rfl) h
    · simp [pairIsNormal, harray]

theorem saysMore_of_not_isShortcut (h : ¬(inline type properties items facets).IsShortcut) :
    saysMore type properties items facets = true := by
  unfold saysMore
  split
  · exact absurd .wrapper h
  · rfl

end Shortcuts

mutual

/-- A shape is normal if and only if none of its nodes could be written shorter. -/
theorem isNormal_iff_nodes : ∀ s : Shape, s.IsNormal ↔ ∀ n ∈ s.nodes, ¬n.IsShortcut
  | .scalar _ => iff_of_true trivial (List.forall_mem_singleton.mpr nofun)
  | .reference _ => iff_of_true trivial (List.forall_mem_singleton.mpr nofun)
  | .array element => by
      rw [nodes, List.forall_mem_cons, ← isNormal_iff_nodes element]
      exact ⟨fun h => ⟨nofun, h⟩, And.right⟩
  | .inline type properties items facets => by
      rw [nodes, List.forall_mem_cons, List.forall_mem_append, List.forall_mem_append,
        ← optionIsNormal_iff_nodes type, ← entriesAreNormal_iff_nodes properties,
        ← optionIsNormal_iff_nodes items]
      constructor
      · intro h
        exact ⟨not_isShortcut_of_isNormal h, ⟨h.1, h.2.1⟩, h.2.2.1⟩
      · rintro ⟨h, ⟨ht, hp⟩, hi⟩
        exact ⟨ht, hp, hi, pairIsNormal_of_not_isShortcut h, saysMore_of_not_isShortcut h⟩

/-- A shape that may be missing is normal if none of its nodes is a shortcut. -/
theorem optionIsNormal_iff_nodes :
    ∀ s : Option Shape, OptionIsNormal s ↔ ∀ n ∈ nodesOfOption s, ¬n.IsShortcut
  | none => iff_of_true trivial (List.forall_mem_nil _)
  | some shape => isNormal_iff_nodes shape

theorem entriesAreNormal_iff_nodes :
    ∀ es : List (String × Shape), EntriesAreNormal es ↔ ∀ n ∈ nodesOfEntries es, ¬n.IsShortcut
  | [] => iff_of_true trivial (List.forall_mem_nil _)
  | (_, shape) :: rest => by
      rw [nodesOfEntries, List.forall_mem_append, ← isNormal_iff_nodes shape,
        ← entriesAreNormal_iff_nodes rest]
      rfl

end

/-! ## Sums over the nodes -/

/-- What a node says itself, as something that can be added up: it does not depend on the shapes in
the node, an array says as much as the built-in type `array`, and the empty declaration nothing. -/
structure IsOwn {M : Type} [AddCommMonoid M] (f : Shape → M) : Prop where
  inline : ∀ type type' properties properties' items items' facets,
    Table.names properties = Table.names properties' →
      f (.inline type properties items facets) = f (.inline type' properties' items' facets)
  array : ∀ element, f (.array element) = f (.scalar "array")
  empty : f .empty = 0

/-- What all nodes of a list say together. -/
def sumOf {M : Type} [AddCommMonoid M] (f : Shape → M) (shapes : List Shape) : M :=
  (shapes.map f).sum

section Sums

variable {M : Type} [AddCommMonoid M] {f : Shape → M}

theorem sumOf_cons (s : Shape) (rest : List Shape) : sumOf f (s :: rest) = f s + sumOf f rest := by
  rw [sumOf, List.map_cons, List.sum_cons, sumOf]

theorem sumOf_append (shapes others : List Shape) :
    sumOf f (shapes ++ others) = sumOf f shapes + sumOf f others := by
  rw [sumOf, List.map_append, List.sum_append, sumOf, sumOf]

/-- A sum over a declaration is that over its parts, with its own share. -/
theorem sumOf_inline (type items : Option Shape) (properties : List (String × Shape))
    (facets : List (String × Value)) :
    sumOf f (inline type properties items facets).nodes =
      f (.inline type properties items facets) +
        (sumOf f (nodesOfOption type) + sumOf f (nodesOfEntries properties) +
          sumOf f (nodesOfOption items)) := by
  rw [nodes, sumOf_cons, sumOf_append, sumOf_append]

theorem sumOf_array (element : Shape) :
    sumOf f (array element).nodes = f (.array element) + sumOf f element.nodes := by
  rw [nodes, sumOf_cons]

theorem eq_empty_of_isEmpty {s : Shape} (h : s.isEmpty = true) : s = .empty := by
  unfold isEmpty at h
  split at h
  · rfl
  · cases h

section Own

variable (hf : IsOwn f)
include hf

/-- A declaration without properties and facets says nothing, whatever shapes are in it. -/
theorem IsOwn.wrapper (type items : Option Shape) : f (.inline type [] items []) = 0 :=
  (hf.inline type none [] [] items none [] rfl).trans hf.empty

/-- What is left of the items of an array says what the items say besides their type. -/
theorem sumOf_rest (element : Shape) (items : Option Shape) (properties : List (String × Shape))
    (facets : List (String × Value)) :
    sumOf f (inline (some element) properties items facets).nodes =
      sumOf f element.nodes + sumOf f (nodesOfOption
        (if (inline none properties items facets).isEmpty then none
          else some (inline none properties items facets))) := by
  have hsame : f (.inline (some element) properties items facets) =
      f (.inline none properties items facets) := hf.inline _ _ _ _ _ _ _ rfl
  split
  · rename_i hempty
    obtain ⟨-, rfl, rfl, rfl⟩ := inline.inj (eq_empty_of_isEmpty hempty)
    rw [sumOf_inline, hf.wrapper]
    simp [nodesOfOption, nodesOfEntries, sumOf]
  · rw [nodesOfOption, sumOf_inline, sumOf_inline, hsame]
    simp only [nodesOfOption, sumOf, List.map_nil, List.sum_nil, zero_add]
    ac_rfl

/-- Collapsing moves the elements and puts an array where the type `array` stood. -/
theorem sumOf_collapse (type items : Option Shape) :
    sumOf f (nodesOfOption (collapse type items).1) +
        sumOf f (nodesOfOption (collapse type items).2) =
      sumOf f (nodesOfOption type) + sumOf f (nodesOfOption items) := by
  match type, items with
  | none, items => rfl
  | some t, none => rfl
  | some t, some i =>
    unfold collapse
    by_cases harray : t.isBareArray = true
    · obtain rfl := eq_scalar_of_isBareArray harray
      have hbare : sumOf f (nodesOfOption (some (.scalar "array"))) = f (.scalar "array") := by
        rw [nodesOfOption, nodes, sumOf, List.map_singleton, List.sum_singleton]
      -- an array that the items move into counts like the bare one
      have hmoved : ∀ element : Shape, sumOf f (nodesOfOption (some (.array element))) =
          f (.scalar "array") + sumOf f element.nodes := by
        intro element
        rw [nodesOfOption, sumOf_array, hf.array]
      simp only [if_pos harray]
      match i with
      | .inline none properties inner facets => rfl
      | .inline (some element) properties inner facets =>
        dsimp only
        rw [hmoved, hbare, nodesOfOption, sumOf_rest hf, add_assoc]
      | .scalar text => rw [hmoved, hbare]; exact add_zero _
      | .reference name => rw [hmoved, hbare]; exact add_zero _
      | .array element => rw [hmoved, hbare]; exact add_zero _
    · simp only [if_neg harray]

/-- Settling a declaration loses nothing of a sum. -/
theorem sumOf_settle (type items : Option Shape) (properties : List (String × Shape))
    (facets : List (String × Value)) :
    sumOf f (settle type properties items facets).nodes =
      sumOf f (inline type properties items facets).nodes := by
  unfold settle
  split
  · rw [sumOf_inline, hf.wrapper]
    simp [nodesOfOption, nodesOfEntries, sumOf]
  · rfl

end Own

/-- Normalizing keeps the names of properties. -/
theorem names_normalizeEntries (es : List (String × Shape)) :
    Table.names (normalizeEntries es) = Table.names es := by
  induction es with
  | nil => rfl
  | cons e es ih => exact congrArg (e.1 :: ·) ih

mutual

/-- Normalizing keeps every sum of what the nodes say themselves. -/
theorem sumOf_normalize (hf : IsOwn f) :
    ∀ s : Shape, sumOf f s.normalize.nodes = sumOf f s.nodes
  | .scalar _ => rfl
  | .reference _ => rfl
  | .array element => by
      rw [normalize, sumOf_array, sumOf_array, hf.array, hf.array, sumOf_normalize hf element]
  | .inline type properties items facets => by
      have hpair := sumOf_collapse hf (normalizeOption type) (normalizeOption items)
      rw [sumOf_normalizeOption hf type, sumOf_normalizeOption hf items] at hpair
      -- the declaration itself keeps its keys and facets, whatever becomes of its type and items
      have hown := hf.inline (collapse (normalizeOption type) (normalizeOption items)).1 type
        (normalizeEntries properties) properties
        (collapse (normalizeOption type) (normalizeOption items)).2 items facets
        (names_normalizeEntries properties)
      rw [normalize, sumOf_settle hf, sumOf_inline, sumOf_inline, hown,
        sumOf_normalizeEntries hf properties,
        add_right_comm _ (sumOf f (nodesOfEntries properties)), hpair,
        add_right_comm _ (sumOf f (nodesOfEntries properties))]

/-- Normalizing a shape that may be missing loses nothing of a sum. -/
theorem sumOf_normalizeOption (hf : IsOwn f) :
    ∀ s : Option Shape, sumOf f (nodesOfOption (normalizeOption s)) = sumOf f (nodesOfOption s)
  | none => rfl
  | some shape => sumOf_normalize hf shape

theorem sumOf_normalizeEntries (hf : IsOwn f) : ∀ es : List (String × Shape),
    sumOf f (nodesOfEntries (normalizeEntries es)) = sumOf f (nodesOfEntries es)
  | [] => rfl
  | (_, shape) :: rest => by
      rw [normalizeEntries, nodesOfEntries, nodesOfEntries, sumOf_append, sumOf_append,
        sumOf_normalize hf shape, sumOf_normalizeEntries hf rest]

end

end Sums

/-! ## What nodes say -/

/-- The name that a reference says. -/
def ownName : Shape → Multiset String
  | .reference name => {name}
  | _ => 0

/-- The text of a scalar, unless it is the built-in type `array`. -/
def ownText : Shape → Multiset String
  | .scalar text => if text = "array" then 0 else {text}
  | _ => 0

/-- The keys of the properties of a declaration. -/
def ownKeys : Shape → Multiset String
  | .inline _ properties _ _ => Table.names properties
  | _ => 0

/-- The facets of a declaration, each under its key. -/
def ownFacets : Shape → Multiset (String × Value)
  | .inline _ _ _ facets => facets
  | _ => 0

/-- How many arrays a node is, written as an array or as the built-in type `array`. -/
def ownArrays : Shape → Nat
  | .array _ => 1
  | s => if s.isBareArray then 1 else 0

theorem isOwn_name : IsOwn ownName := ⟨fun _ _ _ _ _ _ _ _ => rfl, fun _ => rfl, rfl⟩

theorem isOwn_text : IsOwn ownText := ⟨fun _ _ _ _ _ _ _ _ => rfl, fun _ => rfl, rfl⟩

theorem isOwn_keys : IsOwn ownKeys :=
  ⟨fun _ _ _ _ _ _ _ h => congrArg Multiset.ofList h, fun _ => rfl, rfl⟩

theorem isOwn_facets : IsOwn ownFacets := ⟨fun _ _ _ _ _ _ _ _ => rfl, fun _ => rfl, rfl⟩

theorem isOwn_arrays : IsOwn ownArrays := ⟨fun _ _ _ _ _ _ _ _ => rfl, fun _ => rfl, rfl⟩

/-- Arrays are counted in both ways in which they are written. -/
theorem sumOf_ownArrays (shapes : List Shape) :
    sumOf ownArrays shapes = shapes.countP isArray + shapes.countP isBareArray := by
  induction shapes with
  | nil => rfl
  | cons s rest ih =>
    have hone : ownArrays s =
        (if s.isArray then 1 else 0) + (if s.isBareArray then 1 else 0) := by
      -- a node is at most one of the two
      cases s with
      | scalar text => exact (Nat.zero_add _).symm
      | _ => rfl
    rw [sumOf_cons, ih, hone, List.countP_cons, List.countP_cons]
    omega

/-- **Normalizing neither loses nor invents anything.** Over all nodes at any depth, the names of
references, the texts of scalars other than `array`, the keys of properties and the facets under
their keys are the same, each as often as before. So are the arrays, if the built-in type `array`
counts as one. -/
theorem normalize_keeps (s : Shape) :
    sumOf ownName s.normalize.nodes = sumOf ownName s.nodes ∧
    sumOf ownText s.normalize.nodes = sumOf ownText s.nodes ∧
    sumOf ownKeys s.normalize.nodes = sumOf ownKeys s.nodes ∧
    sumOf ownFacets s.normalize.nodes = sumOf ownFacets s.nodes ∧
    s.normalize.nodes.countP isArray + s.normalize.nodes.countP isBareArray =
      s.nodes.countP isArray + s.nodes.countP isBareArray := by
  refine ⟨sumOf_normalize isOwn_name s, sumOf_normalize isOwn_text s,
    sumOf_normalize isOwn_keys s, sumOf_normalize isOwn_facets s, ?_⟩
  rw [← sumOf_ownArrays, ← sumOf_ownArrays]
  exact sumOf_normalize isOwn_arrays s

end Raml.Shape
