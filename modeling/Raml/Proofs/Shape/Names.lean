import Raml.Proofs.Shape.Instantiate
import Raml.Shape.Qualify

/-!
# The names that a type mentions

A reference is the name of a type or a union as it is written, whose members are expressions again.
`namesIn` lists the names in an expression, `mentions` those in a shape. Qualifying a shape changes
its references and nothing else (`references_qualify`), and reading an expression under a scope is
qualifying what is read of it (`Scope.ofChars_eq`). So what two scopes make of a shape can differ
only where it mentions a name that they rename differently (`qualify_congr`).
-/

namespace Raml.Shape

namespace Expression

open Text (isBlank dropAround)

/-! ## Names in expressions -/

/-- A name is read as a built-in type or as a reference. -/
theorem eq_of_isName {cs text : List Char} (h : IsName text (ofChars cs)) :
    ofChars cs = .scalar (String.ofList text) ∨ ofChars cs = .reference (String.ofList text) := by
  have hrender := h.render
  have harray := h.isArray
  have hinline := ofChars_not_isInline cs
  cases hs : ofChars cs with
  | scalar t =>
    rw [hs, render] at hrender
    exact .inl (by rw [hrender])
  | reference name =>
    rw [hs, render] at hrender
    exact .inr (by rw [hrender])
  | array element =>
    rw [hs] at harray
    cases harray
  | inline type properties items facets =>
    rw [hs] at hinline
    cases hinline

/-- What parentheses and suffixes leave of an expression is the text of a schema or a built-in type,
or else a reference. -/
theorem core_ofChars (cs : List Char) : (∃ text, (ofChars cs).core = .scalar text) ∨
    ∃ name, (ofChars cs).core = .reference name := by
  induction cs using ofChars_cases with
  | schema cs _ hread => exact .inl ⟨_, congrArg core hread⟩
  | array a cs b _ _ _ _ hread ih => rwa [hread]
  | wrapped a cs b _ _ _ hread ih => rwa [hread]
  | name a cs b _ _ _ hname =>
    exact (eq_of_isName hname).imp (fun hs => ⟨_, congrArg core hs⟩)
      fun hs => ⟨_, congrArg core hs⟩

/-- A reference has no longer text than the expression that it was read from. -/
theorem length_le_of_core {cs : List Char} {name : String}
    (h : (ofChars cs).core = .reference name) : name.toList.length ≤ cs.length := by
  -- every layer of an expression only adds characters to the reference at its core
  induction cs using ofChars_cases with
  | schema cs _ hread =>
    rw [hread] at h
    cases h
  | array a cs b _ _ _ _ hread ih =>
    rw [hread] at h
    have hinner := ih h
    simp only [List.length_append]
    omega
  | wrapped a cs b _ _ _ hread ih =>
    rw [hread] at h
    have hinner := ih h
    simp only [List.length_append, List.length_cons]
    omega
  | name a cs b _ _ _ hname =>
    rcases eq_of_isName hname with hs | hs
    · rw [hs] at h
      cases h
    · rw [hs] at h
      rw [← Shape.reference.inj h, String.toList_ofList]
      simp only [List.length_append]
      omega

/-- The names that an expression mentions; of a union, those in its members. -/
def namesIn (cs : List Char) : List String :=
  match _core : (ofChars cs).core with
  | .reference name =>
    if _union : hasUnion name.toList = true then
      (memberChars name.toList).attach.flatMap fun ⟨m, _⟩ => namesIn m
    else [name]
  | _ => []
termination_by cs.length
decreasing_by
  rename_i hm
  exact Nat.lt_of_lt_of_le (length_lt_of_mem_memberChars _union hm) (length_le_of_core _core)

/-- The names that a reference mentions. -/
def referenceNames (name : String) : List String :=
  if hasUnion name.toList then (memberChars name.toList).flatMap namesIn else [name]

/-- An expression around a reference has the names of the reference. -/
theorem namesIn_of_core {cs : List Char} {name : String}
    (h : (ofChars cs).core = .reference name) : namesIn cs = referenceNames name := by
  rw [namesIn, referenceNames]
  split
  · rename_i name' h'
    obtain rfl := Shape.reference.inj (h'.symm.trans h)
    split
    · rw [List.flatMap_subtype, List.unattach_attach]
      exact fun _ _ => rfl
    · rfl
  · rename_i hne
    exact absurd h (hne name)

/-- An expression around a built-in type has no names. -/
theorem namesIn_of_not_reference {cs : List Char}
    (h : ∀ name, (ofChars cs).core ≠ .reference name) : namesIn cs = [] := by
  rw [namesIn]
  split
  · rename_i name h'
    exact absurd h' (h name)
  · rfl

end Expression

open Expression

/-! ## References in shapes -/

mutual

/-- The references in a shape, at any depth. -/
def references : Shape → List String
  | .scalar _ => []
  | .reference name => [name]
  | .array element => element.references
  | .inline type properties items _ =>
    referencesOfOption type ++ referencesOfEntries properties ++ referencesOfOption items

/-- The references in a shape that may be missing. -/
def referencesOfOption : Option Shape → List String
  | none => []
  | some shape => shape.references

/-- The references in properties. -/
def referencesOfEntries : List (String × Shape) → List String
  | [] => []
  | (_, shape) :: rest => shape.references ++ referencesOfEntries rest

end

/-- The names that a shape mentions, at any depth. -/
def mentions (s : Shape) : List String := s.references.flatMap referenceNames

theorem references_core (s : Shape) : s.core.references = s.references := by
  induction s using core.induct with
  | case1 element ih => exact ih
  | case2 s h =>
    cases s with
    | array element => exact absurd rfl (h element)
    | _ => rfl

/-- An expression has no more than one reference in it. -/
theorem core_of_mem_references {cs : List Char} {name : String}
    (h : name ∈ (ofChars cs).references) : (ofChars cs).core = .reference name := by
  rw [← references_core] at h
  rcases core_ofChars cs with ⟨text, hcore⟩ | ⟨name', hcore⟩
  · rw [hcore] at h
    cases h
  · rw [hcore] at h ⊢
    rw [List.mem_singleton.mp h]

/-- To prove something of all references, it may be taken for granted of those in the members of a
union. -/
theorem reference_induction {motive : String → Prop}
    (step : ∀ name, (hasUnion name.toList = true → ∀ m ∈ memberChars name.toList,
      ∀ t ∈ (ofChars m).references, motive t) → motive name) (name : String) : motive name := by
  obtain ⟨n, hn⟩ : ∃ n, name.toList.length = n := ⟨_, rfl⟩
  induction n using Nat.strongRecOn generalizing name with
  | ind n ih =>
    refine step name fun hunion m hm t ht => ih _ ?_ t rfl
    rw [← hn]
    exact Nat.lt_of_le_of_lt (length_le_of_core (core_of_mem_references ht))
      (length_lt_of_mem_memberChars hunion hm)

/-- The names in what is read of an expression are those in the expression. -/
theorem mentions_ofChars (cs : List Char) : (ofChars cs).mentions = namesIn cs := by
  rw [mentions, ← references_core]
  rcases core_ofChars cs with ⟨text, hcore⟩ | ⟨name, hcore⟩
  · rw [namesIn_of_not_reference (by simp [hcore]), hcore]
    rfl
  · rw [namesIn_of_core hcore, hcore, references, List.flatMap_singleton]

/-! ## Qualified shapes -/

namespace Scope

variable (s s' : Scope)

/-- A reference with the declared names renamed. -/
def referenceText (name : String) : String :=
  if hasUnion name.toList then
    String.intercalate " | " ((memberChars name.toList).map fun m => (s.ofChars m).render)
  else s.rename name

theorem reference_eq (name : String) : s.reference name = .reference (s.referenceText name) := by
  rw [reference, referenceText]
  split <;> rfl

/-- Reading an expression under a scope is qualifying what is read of it. -/
theorem ofChars_eq (cs : List Char) : s.ofChars cs = (Expression.ofChars cs).qualify s := by
  fun_induction Expression.ofChars cs with
  | case1 cs hschema => rw [ofChars, if_pos hschema, qualify]
  | case2 cs hschema expr harray ih =>
    rw [ofChars, if_neg hschema, dif_pos harray, qualify, ih]
  | case3 cs hschema expr harray hwrapped ih =>
    rw [ofChars, if_neg hschema, dif_neg harray, dif_pos hwrapped, ih]
  | case4 cs hschema expr harray hwrapped hbuiltin =>
    rw [ofChars, if_neg hschema, dif_neg harray, dif_neg hwrapped, if_pos hbuiltin, qualify]
  | case5 cs hschema expr harray hwrapped hbuiltin =>
    rw [ofChars, if_neg hschema, dif_neg harray, dif_neg hwrapped, if_neg hbuiltin, qualify,
      reference, String.toList_ofList]
    split
    · rw [List.map_subtype, List.unattach_attach]
      exact fun _ _ => rfl
    · rfl

end Scope

section Qualify

variable {sc sc' : Scope}

mutual

/-- Qualifying a shape rewrites its references and no other part of it. -/
theorem references_qualify :
    ∀ s : Shape, (s.qualify sc).references = s.references.map sc.referenceText
  | .scalar _ => rfl
  | .reference name => by rw [qualify, Scope.reference_eq]; rfl
  | .array element => references_qualify element
  | .inline type properties items facets => by
      rw [qualify, references, references, List.map_append, List.map_append,
        referencesOfOption_qualify type, referencesOfEntries_qualify properties,
        referencesOfOption_qualify items]

theorem referencesOfOption_qualify : ∀ s : Option Shape,
    referencesOfOption (qualifyOption sc s) = (referencesOfOption s).map sc.referenceText
  | none => rfl
  | some shape => references_qualify shape

theorem referencesOfEntries_qualify : ∀ ps : List (String × Shape),
    referencesOfEntries (qualifyEntries sc ps) = (referencesOfEntries ps).map sc.referenceText
  | [] => rfl
  | (_, shape) :: rest => by
      rw [qualifyEntries, referencesOfEntries, referencesOfEntries, List.map_append,
        references_qualify shape, referencesOfEntries_qualify rest]

end

mutual

/-- What qualifying does shows in the references alone. -/
theorem qualify_eq_of_references : ∀ s : Shape,
    (∀ t ∈ s.references, sc.referenceText t = sc'.referenceText t) → s.qualify sc = s.qualify sc'
  | .scalar _, _ => rfl
  | .reference name, h => by
      rw [qualify, qualify, Scope.reference_eq, Scope.reference_eq,
        h name (List.mem_singleton_self _)]
  | .array element, h => by rw [qualify, qualify, qualify_eq_of_references element h]
  | .inline type properties items facets, h => by
      simp only [references, List.forall_mem_append] at h
      rw [qualify, qualify, qualifyOption_eq_of_references type h.1.1,
        qualifyEntries_eq_of_references properties h.1.2, qualifyOption_eq_of_references items h.2]

theorem qualifyOption_eq_of_references : ∀ s : Option Shape,
    (∀ t ∈ referencesOfOption s, sc.referenceText t = sc'.referenceText t) →
    qualifyOption sc s = qualifyOption sc' s
  | none, _ => rfl
  | some shape, h => congrArg some (qualify_eq_of_references shape h)

theorem qualifyEntries_eq_of_references : ∀ ps : List (String × Shape),
    (∀ t ∈ referencesOfEntries ps, sc.referenceText t = sc'.referenceText t) →
    qualifyEntries sc ps = qualifyEntries sc' ps
  | [], _ => rfl
  | (_, shape) :: rest, h => by
      rw [referencesOfEntries, List.forall_mem_append] at h
      rw [qualifyEntries, qualifyEntries, qualify_eq_of_references shape h.1,
        qualifyEntries_eq_of_references rest h.2]

end

/-- Scopes that rename the names alike that a reference mentions make the same of it. -/
theorem referenceText_congr (name : String)
    (h : ∀ n ∈ referenceNames name, sc.rename n = sc'.rename n) :
    sc.referenceText name = sc'.referenceText name := by
  induction name using reference_induction with
  | step name ih =>
    rw [referenceNames] at h
    rw [Scope.referenceText, Scope.referenceText]
    split at h
    · -- the names of a union are those of the references in its members
      rename_i hunion
      rw [if_pos hunion, if_pos hunion]
      refine congrArg _ (List.map_congr_left fun m hm => ?_)
      rw [Scope.ofChars_eq, Scope.ofChars_eq, qualify_eq_of_references]
      intro t ht
      refine ih hunion m hm t ht fun n hn => h n (List.mem_flatMap.mpr ⟨m, hm, ?_⟩)
      rwa [namesIn_of_core (core_of_mem_references ht)]
    · rename_i hunion
      rw [if_neg hunion, if_neg hunion, h name (List.mem_singleton_self _)]

/-- Scopes that rename the names alike that a shape mentions make the same of it. -/
theorem qualify_congr {s : Shape} (h : ∀ n ∈ s.mentions, sc.rename n = sc'.rename n) :
    s.qualify sc = s.qualify sc' :=
  qualify_eq_of_references s fun t ht =>
    referenceText_congr t fun n hn => h n (List.mem_flatMap.mpr ⟨t, ht, hn⟩)

end Qualify

end Raml.Shape
