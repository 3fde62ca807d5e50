import Mathlib.Tactic.Common
import Raml.Proofs.Text.Blank
import Raml.Shape.Written

/-!
# Reading type expressions

How an expression is read from its parts: blanks around it do not matter (`ofChars_blanks`), an
array suffix after an expression makes an array of it (`ofChars_array`), parentheses around it mean
nothing (`ofChars_wrapped`), and a union is a reference as it is written (`ofChars_union`).

The last three hang on the depth of parentheses, which need not match. `staysOpen` says of a text
that no parenthesis in it closes the one before it, and so that no bar in it counts.
-/

namespace Raml.Shape

/-- Whether a shape is an array. -/
def isArray : Shape → Bool
  | .array _ => true
  | _ => false

namespace Expression

open Text (isBlank dropAround dropStart)

/-- Whether a text holds blanks alone. -/
abbrev IsBlanks (cs : List Char) : Prop := ∀ c ∈ cs, isBlank c = true

/-! ## Depth -/

/-- The depth after a text. -/
def depthAfter (depth : Int) (cs : List Char) : Int := cs.foldl deeper depth

/-- Whether no closing parenthesis of a text brings the depth to nought. -/
def staysOpen (depth : Int) : List Char → Bool
  | [] => true
  | c :: cs => !(c == ')' && depth - 1 == 0) && staysOpen (deeper depth c) cs

/-- Whether a character neither moves the depth nor is a bar. -/
def isNeutral (c : Char) : Bool := c != '(' && c != ')' && c != '|'

/-- Parentheses stay open over a text if they do over each part of it. -/
theorem staysOpen_append (depth : Int) (xs ys : List Char) :
    staysOpen depth (xs ++ ys) = (staysOpen depth xs && staysOpen (depthAfter depth xs) ys) := by
  induction xs generalizing depth with
  | nil => rfl
  | cons x xs ih => simp only [List.cons_append, staysOpen, ih, Bool.and_assoc]; rfl

/-- A text holds a union if one of its parts does, at the depth where it begins. -/
theorem hasUnionFrom_append (depth : Int) (xs ys : List Char) :
    hasUnionFrom depth (xs ++ ys) =
      (hasUnionFrom depth xs || hasUnionFrom (depthAfter depth xs) ys) := by
  induction xs generalizing depth with
  | nil => rfl
  | cons x xs ih => simp only [List.cons_append, hasUnionFrom, ih, Bool.or_assoc]; rfl

theorem deeper_of_isNeutral {c : Char} (h : isNeutral c = true) (depth : Int) :
    deeper depth c = depth := by
  simp only [isNeutral, Bool.and_eq_true, bne_iff_ne, ne_eq] at h
  rw [deeper, if_neg h.1.1, if_neg h.1.2]

theorem isNeutral_of_isBlank {c : Char} (h : isBlank c = true) : isNeutral c = true := by
  have h₁ : c ≠ '(' := by rintro rfl; revert h; decide
  have h₂ : c ≠ ')' := by rintro rfl; revert h; decide
  have h₃ : c ≠ '|' := by rintro rfl; revert h; decide
  simp [isNeutral, h₁, h₂, h₃]

section Neutral

variable {cs : List Char} (h : ∀ c ∈ cs, isNeutral c = true)
include h

/-- Neutral characters keep the depth. -/
theorem depthAfter_of_neutral (depth : Int) : depthAfter depth cs = depth := by
  induction cs generalizing depth with
  | nil => rfl
  | cons c cs ih =>
    rw [List.forall_mem_cons] at h
    change depthAfter (deeper depth c) cs = depth
    rw [deeper_of_isNeutral h.1, ih h.2]

theorem hasUnionFrom_of_neutral (depth : Int) : hasUnionFrom depth cs = false := by
  induction cs generalizing depth with
  | nil => rfl
  | cons c cs ih =>
    rw [List.forall_mem_cons] at h
    have hbar : c ≠ '|' := by simp_all [isNeutral]
    rw [hasUnionFrom, ih h.2, isBar]
    simp [hbar]

end Neutral

/-- Parentheses that stay open are open at the end. -/
theorem one_le_depthAfter {depth : Int} {cs : List Char} (hd : 1 ≤ depth)
    (h : staysOpen depth cs = true) : 1 ≤ depthAfter depth cs := by
  induction cs generalizing depth with
  | nil => exact hd
  | cons c cs ih =>
    simp only [staysOpen, Bool.and_eq_true, Bool.not_eq_true', Bool.and_eq_false_iff,
      beq_eq_false_iff_ne] at h
    refine ih ?_ h.2
    unfold deeper
    grind

/-- Inside parentheses that stay open no bar counts. -/
theorem hasUnionFrom_of_staysOpen {depth : Int} {cs : List Char} (hd : 1 ≤ depth)
    (h : staysOpen depth cs = true) : hasUnionFrom depth cs = false := by
  induction cs generalizing depth with
  | nil => rfl
  | cons c cs ih =>
    have hone : 1 ≤ deeper depth c := by
      have hc : staysOpen depth [c] = true := by
        rw [staysOpen, Bool.and_eq_true] at h
        rw [staysOpen, h.1]
        rfl
      exact one_le_depthAfter hd hc
    simp only [staysOpen, Bool.and_eq_true] at h
    rw [hasUnionFrom, ih hone h.2, isBar]
    have : depth ≠ 0 := by omega
    simp [this]

theorem closesLast_append (depth : Int) (cs : List Char) :
    closesLast depth (cs ++ [')']) = staysOpen depth cs := by
  induction cs generalizing depth with
  | nil => simp [closesLast, staysOpen]
  | cons c cs ih =>
    rw [List.cons_append, closesLast, staysOpen, ih]
    cases hclose : (c == ')' && depth - 1 == 0) <;> simp_all

/-- An expression is wrapped if it is what two parentheses hold, of which the first stays open. -/
theorem isWrapped_iff {cs : List Char} :
    isWrapped cs = true ↔ ∃ inner, cs = '(' :: inner ++ [')'] ∧ staysOpen 1 inner = true := by
  constructor
  · intro h
    simp only [isWrapped, Bool.and_eq_true, beq_iff_eq] at h
    obtain ⟨⟨hhead, hlast⟩, hcloses⟩ := h
    obtain ⟨rest, rfl⟩ := List.head?_eq_some_iff.mp hhead
    -- one character alone cannot be both parentheses
    rcases List.eq_nil_or_concat rest with rfl | ⟨inner, c, rfl⟩
    · simp at hlast
    · rw [List.concat_eq_append] at hlast hcloses ⊢
      rw [← List.cons_append, List.getLast?_append] at hlast
      obtain rfl : c = ')' := by simpa using hlast
      rw [← List.cons_append, closesLast_append] at hcloses
      exact ⟨inner, rfl, by simpa [staysOpen, deeper] using hcloses⟩
  · rintro ⟨inner, rfl, h⟩
    have hcloses : closesLast 0 ('(' :: inner ++ [')']) = true := by
      rw [closesLast_append]
      simpa [staysOpen, deeper] using h
    have hlast : ('(' :: inner ++ [')']).getLast? = some ')' := List.getLast?_concat
    rw [isWrapped, hcloses, hlast]
    rfl

/-- A union in parentheses is none from outside. -/
theorem hasUnion_wrapped {inner : List Char} (h : staysOpen 1 inner = true) :
    hasUnion ('(' :: inner ++ [')']) = false := by
  rw [hasUnion, hasUnionFrom_append]
  have hinner : hasUnionFrom 1 inner = false := hasUnionFrom_of_staysOpen (by decide) h
  simpa [hasUnionFrom, isBar, deeper] using hinner

/-! ## Reading -/

/-- Whether a text is that of a schema is seen from its first character that is not blank. -/
theorem isSchema_iff {cs : List Char} :
    isSchema cs = true ↔ (dropStart isBlank cs).head? = some '\x7b' ∨
      (dropStart isBlank cs).head? = some '<' := by
  rw [isSchema]
  cases dropStart isBlank cs with
  | nil => simp
  | cons c rest =>
    split
    · simp_all
    · simp_all
    · rename_i hbrace hangle
      have h₁ : c ≠ '\x7b' := fun h => hbrace rest (by rw [h])
      have h₂ : c ≠ '<' := fun h => hangle rest (by rw [h])
      simp [h₁, h₂]

theorem isSchema_congr {cs ds : List Char}
    (h : (dropStart isBlank cs).head? = (dropStart isBlank ds).head?) :
    isSchema cs = isSchema ds := by
  rw [Bool.eq_iff_iff, isSchema_iff, isSchema_iff, h]

theorem isSchema_append {a : List Char} (ha : IsBlanks a) (cs : List Char) :
    isSchema (a ++ cs) = isSchema cs :=
  isSchema_congr (by rw [Text.dropStart_append ha])

theorem isSchema_append_right {cs : List Char} (hcs : dropStart isBlank cs ≠ [])
    (b : List Char) : isSchema (cs ++ b) = isSchema cs :=
  isSchema_congr (Text.head?_dropStart_append hcs b)

theorem isSchema_of_blanks {cs : List Char} (h : IsBlanks cs) :
    isSchema cs = false := by
  rw [isSchema, Text.dropStart_eq_nil.mpr h]

theorem ofChars_of_isSchema {cs : List Char} (h : isSchema cs = true) :
    ofChars cs = .scalar (String.ofList cs) := by
  rw [ofChars, if_pos h]

/-- What is read between the blanks, if it is no schema. -/
theorem ofChars_eq {cs : List Char} (h : isSchema cs = false) :
    ofChars cs =
      let expr := dropAround isBlank cs
      if hasSuffix expr = true ∧ hasUnion expr = false then
        .array (ofChars (expr.take (expr.length - 2)))
      else if isWrapped expr = true then ofChars expr.tail.dropLast
      else if builtins.contains (String.ofList expr) = true then .scalar (String.ofList expr)
      else .reference (String.ofList expr) := by
  rw [ofChars, h, if_neg Bool.false_ne_true]
  rfl

/-- Blanks around an expression do not matter. -/
theorem ofChars_blanks {a b cs : List Char} (ha : IsBlanks a)
    (hb : IsBlanks b) (h : isSchema cs = false) :
    ofChars (a ++ cs ++ b) = ofChars cs := by
  have h' : isSchema (a ++ cs ++ b) = false := by
    rw [List.append_assoc, isSchema_append ha]
    by_cases hcs : dropStart isBlank cs = []
    · refine isSchema_of_blanks fun c hc => ?_
      exact (List.mem_append.mp hc).elim (Text.dropStart_eq_nil.mp hcs c) (hb c)
    · rw [isSchema_append_right hcs, h]
  rw [ofChars_eq h, ofChars_eq h', Text.dropAround_append ha hb]

/-- What a text begins with is no schema if the text is none. -/
theorem isSchema_left {xs ys : List Char} (h : isSchema (xs ++ ys) = false) :
    isSchema xs = false := by
  by_cases hnil : dropStart isBlank xs = []
  · exact isSchema_of_blanks (Text.dropStart_eq_nil.mp hnil)
  · rw [← isSchema_append_right hnil ys, h]

/-- Blanks around a text do not make it a schema. -/
theorem isSchema_dropAround {cs : List Char} (h : isSchema cs = false) :
    isSchema (dropAround isBlank cs) = false := by
  obtain ⟨a, b, ha, hb, hcs⟩ := Text.eq_append_dropAround isBlank cs
  apply isSchema_left
  rw [← isSchema_append ha, ← List.append_assoc, ← hcs, h]

/-- A text that begins and ends with other characters than blanks. -/
theorem isBare_of_ends {first last : Char} {cs : List Char} (hfirst : cs.head? = some first)
    (hlast : cs.getLast? = some last) (h : isBlank first = false ∧ isBlank last = false) :
    Text.IsBare isBlank cs :=
  ⟨fun _ hc => Option.some.inj (hfirst.symm.trans hc) ▸ h.1,
    fun _ hc => Option.some.inj (hlast.symm.trans hc) ▸ h.2⟩

/-- Blanks around an expression make it no union. -/
theorem hasUnion_blanks {a b : List Char} (ha : IsBlanks a) (hb : IsBlanks b) (cs : List Char) :
    hasUnion (a ++ cs ++ b) = hasUnion cs := by
  have ha' : ∀ c ∈ a, isNeutral c = true := fun c hc => isNeutral_of_isBlank (ha c hc)
  have hb' : ∀ c ∈ b, isNeutral c = true := fun c hc => isNeutral_of_isBlank (hb c hc)
  rw [hasUnion, hasUnion, hasUnionFrom_append, hasUnionFrom_append, hasUnionFrom_of_neutral ha',
    hasUnionFrom_of_neutral hb', depthAfter_of_neutral ha', Bool.false_or, Bool.or_false]

/-- Blanks around a text do not matter for its unions. -/
theorem hasUnion_dropAround (cs : List Char) : hasUnion (dropAround isBlank cs) = hasUnion cs := by
  obtain ⟨a, b, ha, hb, hcs⟩ := Text.eq_append_dropAround isBlank cs
  rw [← hasUnion_blanks ha hb, ← hcs]

theorem hasUnion_suffix (cs : List Char) : hasUnion (cs ++ ['[', ']']) = hasUnion cs := by
  have hneutral : ∀ c ∈ ['[', ']'], isNeutral c = true :=
    List.forall_mem_cons.mpr ⟨rfl, List.forall_mem_singleton.mpr rfl⟩
  rw [hasUnion, hasUnionFrom_append, hasUnionFrom_of_neutral hneutral, Bool.or_false, hasUnion]

theorem isSchema_suffix {cs : List Char} (h : isSchema cs = false) :
    isSchema (cs ++ ['[', ']']) = false := by
  by_cases hnil : dropStart isBlank cs = []
  · rw [isSchema_append (Text.dropStart_eq_nil.mp hnil)]
    rfl
  · rw [isSchema_append_right hnil, h]

theorem isBare_suffix {cs : List Char} (h : ∀ c ∈ cs.head?, isBlank c = false) :
    Text.IsBare isBlank (cs ++ ['[', ']']) := by
  have hlast : (cs ++ ['[', ']']).getLast? = some ']' := by simp
  cases hhead : cs.head? with
  | some first =>
    exact isBare_of_ends (by rw [List.head?_append, hhead]; rfl) hlast ⟨h first hhead, by decide⟩
  | none =>
    exact isBare_of_ends (by rw [List.head?_append, hhead]; rfl) hlast (by decide : _ ∧ _)

/-- An array suffix after an expression that is no union makes an array of it. -/
theorem ofChars_array {cs : List Char} (hschema : isSchema cs = false)
    (hunion : hasUnion cs = false) : ofChars (cs ++ ['[', ']']) = .array (ofChars cs) := by
  -- blanks before the expression are dropped, those before the suffix stay in the expression
  obtain ⟨a, rest, ha, hrest, rfl⟩ : ∃ a rest, IsBlanks a ∧
      (∀ c ∈ rest.head?, isBlank c = false) ∧ cs = a ++ rest :=
    ⟨cs.takeWhile isBlank, dropStart isBlank cs, fun c hc => List.mem_takeWhile_imp hc,
      fun c hc => Text.of_head?_dropStart hc, List.takeWhile_append_dropWhile.symm⟩
  have hnil : IsBlanks [] := List.forall_mem_nil _
  rw [isSchema_append ha] at hschema
  have hread := ofChars_blanks ha hnil hschema
  have hreadSuffix := ofChars_blanks ha hnil (isSchema_suffix hschema)
  have hnone := hasUnion_blanks ha hnil rest
  rw [List.append_nil] at hread hreadSuffix hnone
  have hnone' : hasUnion (rest ++ ['[', ']']) = false := by
    rw [hasUnion_suffix, ← hnone, hunion]
  have hsuffix : hasSuffix (rest ++ ['[', ']']) = true := by simp [hasSuffix]
  rw [List.append_assoc, hreadSuffix, hread, ofChars_eq (isSchema_suffix hschema),
    Text.dropAround_of_isBare (isBare_suffix hrest)]
  simp only [hsuffix, hnone', and_self, if_true]
  congr 1
  simp

/-- Parentheses around a text are taken off when it is read. -/
theorem ofChars_wrapped {inner : List Char} (h : staysOpen 1 inner = true) :
    ofChars ('(' :: inner ++ [')']) = ofChars inner := by
  have hlast : ('(' :: inner ++ [')']).getLast? = some ')' := List.getLast?_concat
  have hbare : Text.IsBare isBlank ('(' :: inner ++ [')']) :=
    isBare_of_ends rfl hlast (by decide)
  have hsuffix : hasSuffix ('(' :: inner ++ [')']) = false := by
    rw [← Bool.not_eq_true, hasSuffix, List.isSuffixOf_iff_suffix]
    rintro ⟨before, hbefore⟩
    rw [← hbefore, List.getLast?_append] at hlast
    cases hlast
  have hschema : isSchema ('(' :: inner ++ [')']) = false := rfl
  have hwrapped : isWrapped ('(' :: inner ++ [')']) = true := isWrapped_iff.mpr ⟨inner, rfl, h⟩
  rw [ofChars_eq hschema, Text.dropAround_of_isBare hbare]
  simp only [hsuffix, hwrapped, Bool.false_eq_true, false_and, if_false, if_true]
  congr 1
  simp

theorem hasUnion_of_mem_builtins : ∀ name ∈ builtins, hasUnion name.toList = false := by decide

/-- A union is a reference as it is written. -/
theorem ofChars_union {cs : List Char} (hschema : isSchema cs = false)
    (hunion : hasUnion cs = true) :
    ofChars cs = .reference (String.ofList (dropAround isBlank cs)) := by
  have hexpr : hasUnion (dropAround isBlank cs) = true := (hasUnion_dropAround cs).trans hunion
  have hwrapped : isWrapped (dropAround isBlank cs) = false := by
    rw [← Bool.not_eq_true, isWrapped_iff]
    rintro ⟨inner, hinner, h⟩
    have hnone := hasUnion_wrapped h
    rw [← hinner, hexpr] at hnone
    cases hnone
  have hbuiltin : builtins.contains (String.ofList (dropAround isBlank cs)) = false := by
    rw [← Bool.not_eq_true, List.contains_iff_mem]
    intro hmem
    have hnone := hasUnion_of_mem_builtins _ hmem
    rw [String.toList_ofList, hexpr] at hnone
    cases hnone
  rw [ofChars_eq hschema]
  simp only [hexpr, hwrapped, hbuiltin, Bool.true_eq_false, and_false, if_false,
    Bool.false_eq_true]

/-- What is read of a text that is the name of a type or a union of names. -/
structure IsName (cs : List Char) (s : Shape) : Prop where
  render : s.render = String.ofList cs
  isUnion : s.isUnion = hasUnion cs
  isArray : s.isArray = false

/-- What parentheses do not hold and no suffix follows is a name. -/
theorem ofChars_isName {cs : List Char} (hschema : isSchema cs = false)
    (harray :
      ¬(hasSuffix (dropAround isBlank cs) = true ∧ hasUnion (dropAround isBlank cs) = false))
    (hwrapped : isWrapped (dropAround isBlank cs) ≠ true) :
    IsName (dropAround isBlank cs) (ofChars cs) := by
  rw [ofChars_eq hschema]
  simp only [if_neg harray, if_neg hwrapped]
  split
  · rename_i hbuiltin
    have hnone := hasUnion_of_mem_builtins _ (List.contains_iff_mem.mp hbuiltin)
    rw [String.toList_ofList] at hnone
    exact ⟨rfl, hnone.symm, rfl⟩
  · exact ⟨rfl, by rw [isUnion, String.toList_ofList], rfl⟩

/-- The ways in which an expression is read: as the text of a schema, or between blanks as an array,
as what parentheses hold, or as a name. -/
@[elab_as_elim]
theorem ofChars_cases {motive : List Char → Prop}
    (schema : ∀ cs, isSchema cs = true → ofChars cs = .scalar (String.ofList cs) → motive cs)
    (array : ∀ a cs b, IsBlanks a → IsBlanks b → isSchema cs = false → hasUnion cs = false →
      ofChars (a ++ (cs ++ ['[', ']']) ++ b) = .array (ofChars cs) → motive cs →
      motive (a ++ (cs ++ ['[', ']']) ++ b))
    (wrapped : ∀ a cs b, IsBlanks a → IsBlanks b → staysOpen 1 cs = true →
      ofChars (a ++ ('(' :: cs ++ [')']) ++ b) = ofChars cs → motive cs →
      motive (a ++ ('(' :: cs ++ [')']) ++ b))
    (name : ∀ a cs b, IsBlanks a → IsBlanks b → isSchema cs = false →
      IsName cs (ofChars (a ++ cs ++ b)) → motive (a ++ cs ++ b))
    (cs : List Char) : motive cs := by
  obtain ⟨n, hn⟩ : ∃ n, cs.length = n := ⟨_, rfl⟩
  induction n using Nat.strongRecOn generalizing cs with
  | ind n ih =>
    by_cases hschema : isSchema cs = true
    · exact schema cs hschema (ofChars_of_isSchema hschema)
    rw [Bool.not_eq_true] at hschema
    obtain ⟨a, b, ha, hb, hcs⟩ := Text.eq_append_dropAround isBlank cs
    have hschema' := isSchema_dropAround hschema
    have hlength : (dropAround isBlank cs).length ≤ n := hn ▸ length_trim_le cs
    -- a suffix comes off first, then the parentheses, and a name is left
    by_cases harray : hasSuffix (dropAround isBlank cs) = true ∧
        hasUnion (dropAround isBlank cs) = false
    · obtain ⟨inner, hinner⟩ := List.isSuffixOf_iff_suffix.mp harray.1
      rw [← hinner] at hcs hlength hschema' harray
      have hplain : isSchema inner = false ∧ hasUnion inner = false := by
        have hunion := harray.2
        rw [hasUnion, hasUnionFrom_append, Bool.or_eq_false_iff] at hunion
        exact ⟨isSchema_left hschema', hunion.1⟩
      rw [hcs]
      refine array a inner b ha hb hplain.1 hplain.2 ?_ (ih _ ?_ inner rfl)
      · rw [ofChars_blanks ha hb hschema', ofChars_array hplain.1 hplain.2]
      · simp at hlength
        omega
    by_cases hwrapped : isWrapped (dropAround isBlank cs) = true
    · obtain ⟨inner, hinner, hopen⟩ := isWrapped_iff.mp hwrapped
      rw [hinner] at hcs hlength hschema'
      rw [hcs]
      refine wrapped a inner b ha hb hopen ?_ (ih _ ?_ inner rfl)
      · rw [ofChars_blanks ha hb hschema', ofChars_wrapped hopen]
      · simp at hlength
        omega
    · have hname := name a (dropAround isBlank cs) b ha hb hschema'
      rw [← hcs] at hname
      exact hname (ofChars_isName hschema harray hwrapped)

end Expression
end Raml.Shape
