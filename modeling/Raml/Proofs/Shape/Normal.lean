import Raml.Shape.Normal

/-!
# Normal shapes are normal

`normalize` works from the inside out: the parts of a declaration are normal before the pair of its
type and items is collapsed. Collapsing takes elements out of the items, which leaves all of these
normal (`collapse_isNormal`), and settling takes away the one thing that is left to take away. In a
normal shape there is nothing to collapse or to settle, so normalizing leaves it as it is
(`normalize_of_isNormal`).
-/

namespace Raml.Shape

/-- What collapsing makes of a normal pair is normal, and free of the shortcut. -/
theorem collapse_isNormal {type items : Option Shape} (ht : OptionIsNormal type)
    (hi : OptionIsNormal items) :
    OptionIsNormal (collapse type items).1 ∧ OptionIsNormal (collapse type items).2 ∧
      pairIsNormal (collapse type items).1 (collapse type items).2 = true := by
  match type, items with
  | none, items => exact ⟨ht, hi, rfl⟩
  | some t, none => exact ⟨ht, hi, rfl⟩
  | some t, some i =>
    unfold collapse
    by_cases harray : t.isBareArray = true
    · simp only [if_pos harray]
      match i with
      | .scalar text => exact ⟨hi, trivial, rfl⟩
      | .reference name => exact ⟨hi, trivial, rfl⟩
      | .array element => exact ⟨hi, trivial, rfl⟩
      | .inline none properties inner facets => exact ⟨ht, hi, by simp [pairIsNormal]⟩
      | .inline (some element) properties inner facets =>
        -- the elements move to the type, and what is left of the items has no type any more
        obtain ⟨helement, hproperties, hinner, -, -⟩ := hi
        dsimp only
        split
        · exact ⟨helement, trivial, rfl⟩
        · exact ⟨helement, ⟨trivial, hproperties, hinner, rfl, rfl⟩, rfl⟩
    · simp only [if_neg harray]
      exact ⟨ht, hi, by simp [pairIsNormal, harray]⟩

/-- What has normal parts is settled into something normal. -/
theorem settle_isNormal {type items : Option Shape} {properties : List (String × Shape)}
    {facets : List (String × Value)} (ht : OptionIsNormal type) (hi : OptionIsNormal items)
    (hp : EntriesAreNormal properties) (hpair : pairIsNormal type items = true) :
    (settle type properties items facets).IsNormal := by
  unfold settle
  split
  · exact ht
  · rename_i hother
    refine ⟨ht, hp, hi, hpair, ?_⟩
    unfold saysMore
    split
    · rename_i element
      exact (hother element rfl rfl rfl rfl).elim
    · rfl

mutual

/-- **Normalizing leaves no shortcut at any depth.** -/
theorem normalize_isNormal : ∀ s : Shape, s.normalize.IsNormal
  | .scalar _ => trivial
  | .reference _ => trivial
  | .array element => normalize_isNormal element
  | .inline type properties items facets => by
      obtain ⟨ht, hi, hpair⟩ :=
        collapse_isNormal (normalizeOption_isNormal type) (normalizeOption_isNormal items)
      exact settle_isNormal ht hi (normalizeEntries_isNormal properties) hpair

/-- Normalizing gives something normal. -/
theorem normalizeOption_isNormal : ∀ s : Option Shape, OptionIsNormal (normalizeOption s)
  | none => trivial
  | some shape => normalize_isNormal shape

theorem normalizeEntries_isNormal :
    ∀ es : List (String × Shape), EntriesAreNormal (normalizeEntries es)
  | [] => trivial
  | (_, shape) :: rest => ⟨normalize_isNormal shape, normalizeEntries_isNormal rest⟩

end

/-! ## Nothing left to do -/

/-- A normal pair of type and items is kept. -/
theorem collapse_of_pairIsNormal {type items : Option Shape}
    (h : pairIsNormal type items = true) : collapse type items = (type, items) := by
  match type, items with
  | none, items => rfl
  | some t, none => rfl
  | some t, some i =>
    unfold collapse
    by_cases harray : t.isBareArray = true
    · -- beside a bare array, only a declaration without a type is normal
      match i with
      | .inline none properties inner facets => simp only [if_pos harray]
      | .inline (some element) properties inner facets => simp [pairIsNormal, harray] at h
      | .scalar text => simp [pairIsNormal, harray] at h
      | .reference name => simp [pairIsNormal, harray] at h
      | .array element => simp [pairIsNormal, harray] at h
    · simp only [if_neg harray]

/-- A declaration that says more than its type is kept. -/
theorem settle_of_saysMore {type items : Option Shape} {properties : List (String × Shape)}
    {facets : List (String × Value)} (h : saysMore type properties items facets = true) :
    settle type properties items facets = .inline type properties items facets := by
  unfold settle
  split
  · cases h
  · rfl

mutual

/-- Normalizing leaves a shape as it is that is free of shortcuts. -/
theorem normalize_of_isNormal : ∀ {s : Shape}, s.IsNormal → s.normalize = s
  | .scalar _, _ => rfl
  | .reference _, _ => rfl
  | .array _, h => congrArg Shape.array (normalize_of_isNormal h)
  | .inline type properties items facets, ⟨ht, hp, hi, hpair, hmore⟩ => by
      rw [normalize, normalizeOption_of_isNormal ht, normalizeEntries_of_isNormal hp,
        normalizeOption_of_isNormal hi, collapse_of_pairIsNormal hpair, settle_of_saysMore hmore]

/-- Something normal is kept. -/
theorem normalizeOption_of_isNormal :
    ∀ {s : Option Shape}, OptionIsNormal s → normalizeOption s = s
  | none, _ => rfl
  | some _, h => congrArg some (normalize_of_isNormal h)

theorem normalizeEntries_of_isNormal :
    ∀ {es : List (String × Shape)}, EntriesAreNormal es → normalizeEntries es = es
  | [], _ => rfl
  | (name, _) :: _, ⟨h, hrest⟩ => by
      rw [normalizeEntries, normalize_of_isNormal h, normalizeEntries_of_isNormal hrest]

end

/-- The shapes that normalizing leaves as they are are those without shortcuts. -/
theorem normalize_eq_self_iff {s : Shape} : s.normalize = s ↔ s.IsNormal :=
  ⟨fun h => h ▸ normalize_isNormal s, normalize_of_isNormal⟩

end Raml.Shape
