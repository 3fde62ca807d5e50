import Raml.Shape.Written

/-!
# Qualified names

A name declared in a library is known outside by the alias of the library, a point and the name.
`qualify` renames the declared names wherever a shape mentions them, also in the members of
unions, and touches nothing else.
-/

namespace Raml.Shape

namespace Expression

theorem stretchesFrom_ne_nil (depth : Int) (cs : List Char) : stretchesFrom depth cs ≠ [] := by
  cases cs with
  | nil => simp [stretchesFrom]
  | cons c cs =>
    unfold stretchesFrom
    split
    · simp
    · split <;> simp

theorem length_le_of_mem_stretchesFrom {depth : Int} {cs p : List Char}
    (h : p ∈ stretchesFrom depth cs) : p.length ≤ cs.length := by
  induction cs generalizing depth p with
  | nil => simp_all [stretchesFrom]
  | cons c cs ih =>
    unfold stretchesFrom at h
    split at h
    · rcases List.mem_cons.1 h with rfl | h
      · simp
      · exact Nat.le_succ_of_le (ih h)
    · cases hs : stretchesFrom (deeper depth c) cs with
      | nil => exact absurd hs (stretchesFrom_ne_nil _ _)
      | cons q qs =>
        rw [hs] at h
        rcases List.mem_cons.1 h with rfl | h
        · have hq : q ∈ stretchesFrom (deeper depth c) cs := by simp [hs]
          simpa using ih hq
        · have hp : p ∈ stretchesFrom (deeper depth c) cs := by simp [hs, h]
          exact Nat.le_succ_of_le (ih hp)

theorem length_lt_of_mem_stretchesFrom {depth : Int} {cs p : List Char}
    (hu : hasUnionFrom depth cs = true) (h : p ∈ stretchesFrom depth cs) :
    p.length < cs.length := by
  induction cs generalizing depth p with
  | nil => simp [hasUnionFrom] at hu
  | cons c cs ih =>
    unfold stretchesFrom at h
    unfold hasUnionFrom at hu
    split at h
    · rcases List.mem_cons.1 h with rfl | h
      · simp
      · exact Nat.lt_succ_of_le (length_le_of_mem_stretchesFrom h)
    · rename_i hb
      simp only [hb, Bool.false_or] at hu
      cases hs : stretchesFrom (deeper depth c) cs with
      | nil => exact absurd hs (stretchesFrom_ne_nil _ _)
      | cons q qs =>
        rw [hs] at h
        rcases List.mem_cons.1 h with rfl | h
        · have hq : q ∈ stretchesFrom (deeper depth c) cs := by simp [hs]
          simpa using ih hu hq
        · have hp : p ∈ stretchesFrom (deeper depth c) cs := by simp [hs, h]
          exact Nat.lt_succ_of_lt (ih hu hp)

theorem length_lt_of_mem_memberChars {cs m : List Char} (hu : hasUnion cs = true)
    (h : m ∈ memberChars cs) : m.length < cs.length := by
  obtain ⟨p, hp, rfl⟩ := List.mem_map.1 h
  exact Nat.lt_of_le_of_lt (length_trim_le p) (length_lt_of_mem_stretchesFrom hu hp)

end Expression

/-- The names that a library declares, and the alias by which it is known. -/
structure Scope where
  aliasName : String
  declared : List String

namespace Scope

/-- A name as it is known outside. -/
def rename (s : Scope) (name : String) : String :=
  if s.declared.contains name then s.aliasName ++ "." ++ name else name

open Expression in
/-- The shape that an expression denotes, with the declared names renamed. -/
def ofChars (s : Scope) (cs : List Char) : Shape :=
  if isSchema cs then .scalar (String.ofList cs)
  else
    let expr := Text.dropAround Text.isBlank cs
    if h : hasSuffix expr = true ∧ hasUnion expr = false then
      .array (s.ofChars (expr.take (expr.length - 2)))
    else if _wrapped : isWrapped expr = true then s.ofChars (expr.tail.dropLast)
    else if builtins.contains (String.ofList expr) then .scalar (String.ofList expr)
    else if _union : hasUnion expr = true then
      .reference (String.intercalate " | "
        ((memberChars expr).attach.map fun ⟨m, _⟩ => (s.ofChars m).render))
    else .reference (s.rename (String.ofList expr))
termination_by cs.length
decreasing_by
  · have h1 := length_trim_le cs
    have h2 : 2 ≤ (Text.dropAround Text.isBlank cs).length := two_le_length_of_hasSuffix h.1
    simp only [List.length_take]
    omega
  · have h1 := length_trim_le cs
    have h2 : 0 < (Text.dropAround Text.isBlank cs).length := pos_length_of_isWrapped _wrapped
    simp only [List.length_dropLast, List.length_tail]
    omega
  · rename_i hm
    have h1 := length_trim_le cs
    have h2 : m.length < (Text.dropAround Text.isBlank cs).length :=
      length_lt_of_mem_memberChars _union hm
    omega

/-- A reference with the declared names renamed, in every member if it is a union. -/
def reference (s : Scope) (name : String) : Shape :=
  if Expression.hasUnion name.toList then
    .reference (String.intercalate " | "
      ((Expression.memberChars name.toList).map fun m => (s.ofChars m).render))
  else .reference (s.rename name)

end Scope

mutual

/-- The shape with the declared names renamed. -/
def qualify (s : Scope) : Shape → Shape
  | .scalar text => .scalar text
  | .reference name => s.reference name
  | .array element => .array (qualify s element)
  | .inline type properties items facets =>
    .inline (qualifyOption s type) (qualifyEntries s properties) (qualifyOption s items) facets

/-- A shape that may be missing with the declared names renamed. -/
def qualifyOption (s : Scope) : Option Shape → Option Shape
  | none => none
  | some shape => some (qualify s shape)

/-- Properties with the declared names renamed. -/
def qualifyEntries (s : Scope) : List (String × Shape) → List (String × Shape)
  | [] => []
  | (name, shape) :: rest => (name, qualify s shape) :: qualifyEntries s rest

end

end Raml.Shape
