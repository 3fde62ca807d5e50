import Raml.Proofs.Document.Texts
import Raml.Proofs.Shape.Members
import Raml.Proofs.Shape.Names

/-!
# What qualifying leaves alone

Qualifying puts an alias before names, writes unions out anew, and takes blanks and parentheses
away. Whatever is seen in a text although only such characters are changed (`IsSeen`) is seen in a
qualified shape if it was seen before (`render_qualify_iff`). The brackets of placeholders are: so
whether something is left to be filled in does not depend on the scope (`hasBrackets_qualify`), and
neither does it whether a text is left at all.
-/

namespace Raml.Shape

open Expression
open Text (isBlank dropAround)

/-! ## Seeing through separators -/

/-- Characters that qualifying may put into a text or take out of it. -/
def isSeparator (c : Char) : Bool := isBlank c || ['(', ')', '[', ']', '|', '.'].contains c

/-- What is seen in a text is seen on one side of a separator. -/
structure IsSeen (P : List Char → Prop) : Prop where
  nil : ¬P []
  across : ∀ {c : Char} {xs ys : List Char}, isSeparator c = true →
    (P (xs ++ c :: ys) ↔ P xs ∨ P ys)

/-- Whether a text is made of separators. -/
abbrev IsSeparators (cs : List Char) : Prop := ∀ c ∈ cs, isSeparator c = true

theorem isSeparators_of_blanks {cs : List Char} (h : IsBlanks cs) : IsSeparators cs := by
  intro c hc
  rw [isSeparator, h c hc]
  rfl

theorem isSeparators_of_all {cs : List Char} (h : cs.all isSeparator = true) : IsSeparators cs :=
  List.all_eq_true.mp h

section Seen

variable {P : List Char → Prop} (hP : IsSeen P) {sc sc' : Scope}
include hP

theorem IsSeen.append_left {o : List Char} (ho : IsSeparators o) (xs : List Char) :
    P (o ++ xs) ↔ P xs := by
  induction o with
  | nil => rfl
  | cons c o ih =>
    obtain ⟨hc, ho⟩ := List.forall_mem_cons.mp ho
    have h : P ([] ++ c :: (o ++ xs)) ↔ P [] ∨ P (o ++ xs) := hP.across hc
    rw [List.nil_append, or_iff_right hP.nil] at h
    rw [List.cons_append, h, ih ho]

/-- Separators at the end do not matter for what is seen. -/
theorem IsSeen.append_right {o : List Char} (ho : IsSeparators o) (xs : List Char) :
    P (xs ++ o) ↔ P xs := by
  cases o with
  | nil => rw [List.append_nil]
  | cons c o =>
    obtain ⟨hc, ho⟩ := List.forall_mem_cons.mp ho
    have hnone := hP.append_left ho []
    rw [List.append_nil] at hnone
    rw [hP.across hc, hnone, or_iff_left hP.nil]

/-- Separators around a text do not matter for what is seen. -/
theorem IsSeen.between {before after : List Char} (hbefore : IsSeparators before)
    (hafter : IsSeparators after) (cs : List Char) : P (before ++ cs ++ after) ↔ P cs := by
  rw [hP.append_right hafter, hP.append_left hbefore]

section Written

variable {a b : List Char} (ha : IsBlanks a) (hb : IsBlanks b)
include ha hb

theorem IsSeen.blanks (cs : List Char) : P (a ++ cs ++ b) ↔ P cs :=
  hP.between (isSeparators_of_blanks ha) (isSeparators_of_blanks hb) cs

/-- What is seen in an array is seen in its element. -/
theorem IsSeen.array (cs : List Char) : P (a ++ (cs ++ ['[', ']']) ++ b) ↔ P cs := by
  rw [hP.blanks ha hb, hP.append_right (isSeparators_of_all (by rfl))]

/-- Parentheses around a text do not matter. -/
theorem IsSeen.wrapped (cs : List Char) : P (a ++ ('(' :: cs ++ [')']) ++ b) ↔ P cs := by
  rw [hP.blanks ha hb, ← List.singleton_append,
    hP.between (isSeparators_of_all (by rfl)) (isSeparators_of_all (by rfl))]

end Written

theorem IsSeen.dropAround (cs : List Char) : P (dropAround isBlank cs) ↔ P cs := by
  obtain ⟨a, b, ha, hb, hcs⟩ := Text.eq_append_dropAround isBlank cs
  rw [← hP.blanks ha hb, ← hcs]

theorem IsSeen.render_array (element : Shape) :
    P (render (.array element)).toList ↔ P element.render.toList := by
  rw [toList_render_array]
  split
  · rw [List.append_assoc, ← List.singleton_append,
      hP.between (isSeparators_of_all (by rfl)) (isSeparators_of_all (by rfl))]
  · rw [hP.append_right (isSeparators_of_all (by rfl))]

/-- What is seen in an expression is seen in what is read of it. -/
theorem IsSeen.render_ofChars (cs : List Char) : P (ofChars cs).render.toList ↔ P cs := by
  induction cs using ofChars_cases with
  | schema cs _ hread => rw [hread, render, String.toList_ofList]
  | array a cs b ha hb _ _ hread ih => rw [hread, hP.render_array, ih, hP.array ha hb]
  | wrapped a cs b ha hb _ hread ih => rw [hread, ih, hP.wrapped ha hb]
  | name a cs b ha hb _ hname => rw [hname.render, String.toList_ofList, hP.blanks ha hb]

/-- Something is seen in a text exactly if it is in one of its stretches. -/
theorem IsSeen.of_isCut {ps : List (List Char)} {cs : List Char} (h : IsCut ps cs) :
    P cs ↔ ∃ p ∈ ps, P p := by
  induction h with
  | last _ => simp
  | bar _ _ _ ih => simp [hP.across (c := '|') rfl, ih]

theorem IsSeen.joined (ms : List (List Char)) : P (joined ms) ↔ ∃ m ∈ ms, P m := by
  have hspace : IsSeparators [' '] := List.forall_mem_singleton.mpr rfl
  induction ms with
  | nil => simpa [Expression.joined] using hP.nil
  | cons m ms ih =>
    by_cases hms : ms = []
    · subst hms
      simp [Expression.joined]
    · rw [joined_cons hms, hP.across (c := '|') rfl, hP.append_right hspace,
        ← List.singleton_append, hP.append_left hspace]
      simpa using or_congr_right ih

end Seen

/-! ## References -/

namespace Scope

/-- A member of a union as it is written with the declared names renamed. -/
def member (s : Scope) (p : List Char) : List Char :=
  (s.ofChars (dropAround isBlank p)).render.toList

/-- A union is renamed member by member. -/
theorem toList_referenceText {s : Scope} {name : String} (h : hasUnion name.toList = true) :
    (s.referenceText name).toList = joined ((stretchesFrom 0 name.toList).map s.member) := by
  rw [referenceText, if_pos h, String.toList_intercalate, memberChars, List.map_map, List.map_map]
  rfl

end Scope

section Qualified

variable {P : List Char → Prop} (hP : IsSeen P) {sc sc' : Scope}
include hP

/-- What is not seen in the alias is seen after renaming as before. -/
theorem rename_iff (hA : ¬P sc.aliasName.toList) (name : String) :
    P (sc.rename name).toList ↔ P name.toList := by
  rw [Scope.rename]
  split
  · rw [String.toList_append, String.toList_append, List.append_assoc]
    change P (_ ++ '.' :: name.toList) ↔ _
    rw [hP.across rfl, or_iff_right hA]
  · rfl

omit hP in
/-- What is seen of a shape shows in its references. -/
theorem render_qualify_of_references (hP : IsSeen P) : ∀ s : Shape,
    (∀ t ∈ s.references, P (sc.referenceText t).toList ↔ P t.toList) →
    (P (s.qualify sc).render.toList ↔ P s.render.toList)
  | .scalar _, _ => Iff.rfl
  | .reference name, h => by
      rw [qualify, Scope.reference_eq]
      exact h name (List.mem_singleton_self _)
  | .array element, h => by
      rw [qualify, hP.render_array, hP.render_array, render_qualify_of_references hP element h]
  | .inline (some type) properties items facets, h => by
      simp only [references, List.forall_mem_append] at h
      rw [qualify, qualifyOption, render, render, render_qualify_of_references hP type h.1.1]
  | .inline none properties items facets, h => by
      rw [qualify, qualifyOption, render, render]
      cases properties <;> rfl

theorem referenceText_iff (hA : ¬P sc.aliasName.toList) (name : String) :
    P (sc.referenceText name).toList ↔ P name.toList := by
  induction name using reference_induction with
  | step name ih =>
    by_cases hunion : hasUnion name.toList = true
    · rw [Scope.toList_referenceText hunion, hP.joined, hP.of_isCut (isCut_stretches name.toList)]
      simp only [List.mem_map, exists_exists_and_eq_and]
      refine exists_congr fun p => and_congr_right fun hp => ?_
      have hmember := ih hunion _ (List.mem_map_of_mem hp)
      rw [Scope.member, Scope.ofChars_eq, render_qualify_of_references hP _ hmember,
        hP.render_ofChars, hP.dropAround]
    · rw [Scope.referenceText, if_neg hunion, rename_iff hP hA]

/-- What is seen in a shape that is qualified is seen in the shape. -/
theorem render_qualify_iff (hA : ¬P sc.aliasName.toList) (s : Shape) :
    P (s.qualify sc).render.toList ↔ P s.render.toList :=
  render_qualify_of_references hP s fun t _ => referenceText_iff hP hA t

end Qualified

/-! ## Pairs of brackets -/

/-- A pair of brackets does not reach across a separator. -/
theorem isSeen_pair {c : Char} (hc : isSeparator c = false) : IsSeen fun cs => [c, c] <:+: cs := by
  constructor
  · intro h
    have hlength := h.length_le
    simp at hlength
  · intro y xs ys hy
    have hne : y ≠ c := by
      rintro rfl
      rw [hy] at hc
      cases hc
    constructor
    · intro h
      by_contra hnone
      rw [not_or] at hnone
      refine Template.not_pair_append hnone.1 ?_ (by simpa using hne) h
      rw [List.infix_cons_iff, not_or]
      exact ⟨fun hprefix => hne (List.cons_prefix_cons.mp hprefix).1.symm, hnone.2⟩
    · rintro (h | h)
      · exact h.trans (List.prefix_append _ _).isInfix
      · exact h.trans ((List.suffix_cons y ys).trans (List.suffix_append xs _)).isInfix

/-! ## Brackets in nodes -/

section Nodes

open Application (hasBrackets entriesHaveBrackets)

variable {sc : Scope}

/-- Entries under the same keys, of which both hold brackets or none does. -/
abbrev SameBrackets : List (Value × Value) → List (Value × Value) → Prop :=
  List.Forall₂ fun e e' => e.1 = e'.1 ∧ hasBrackets e.2 = hasBrackets e'.2

theorem entriesHaveBrackets_congr {es es' : List (Value × Value)} (h : SameBrackets es es') :
    entriesHaveBrackets es = entriesHaveBrackets es' := by
  induction h with
  | nil => rfl
  | @cons e e' es es' he _ ih =>
    obtain ⟨k, v⟩ := e
    obtain ⟨k', v'⟩ := e'
    obtain ⟨rfl, hv⟩ := he
    simp only at hv
    rw [entriesHaveBrackets, entriesHaveBrackets, hv, ih]

theorem sameBrackets_insert {es es' : List (Value × Value)} (h : SameBrackets es es')
    (key v : Value) : SameBrackets (Value.insert key v es) (Value.insert key v es') := by
  induction h with
  | nil => exact .cons ⟨rfl, rfl⟩ .nil
  | @cons e e' es es' he hes ih =>
    obtain ⟨k, w⟩ := e
    obtain ⟨k', w'⟩ := e'
    obtain ⟨rfl, hw⟩ := he
    rw [Value.insert, Value.insert]
    split
    · exact .cons ⟨rfl, rfl⟩ hes
    · exact .cons ⟨rfl, hw⟩ ih

theorem sameBrackets_facets (facets : List (String × Value)) {es es' : List (Value × Value)}
    (h : SameBrackets es es') :
    SameBrackets (facets.foldl (fun entries f => Value.insert (.str f.1) f.2 entries) es)
      (facets.foldl (fun entries f => Value.insert (.str f.1) f.2 entries) es') := by
  induction facets generalizing es es' with
  | nil => exact h
  | cons f facets ih => exact ih (sameBrackets_insert h _ _)

theorem isInline_qualify (s : Shape) : (s.qualify sc).isInline = s.isInline := by
  cases s with
  | reference name => rw [qualify, Scope.reference_eq]; rfl
  | _ => rfl

/-- Whether a text holds brackets depends on the two pairs alone. -/
theorem hasBrackets_congr {s t : String}
    (hopening : ['<', '<'] <:+: s.toList ↔ ['<', '<'] <:+: t.toList)
    (hclosing : ['>', '>'] <:+: s.toList ↔ ['>', '>'] <:+: t.toList) :
    Template.hasBrackets s = Template.hasBrackets t := by
  rw [← Bool.not_inj_iff, Bool.eq_iff_iff]
  simp only [Bool.not_eq_true', Template.hasBrackets_eq_false_iff, hopening, hclosing]

/-- An alias without brackets brings none into a type expression. -/
theorem hasBrackets_render_qualify (hA : Template.hasBrackets sc.aliasName = false) (s : Shape) :
    Template.hasBrackets (s.qualify sc).render = Template.hasBrackets s.render := by
  rw [Template.hasBrackets_eq_false_iff] at hA
  exact hasBrackets_congr (render_qualify_iff (isSeen_pair (by decide)) hA.1 s)
    (render_qualify_iff (isSeen_pair (by decide)) hA.2 s)

theorem hasBrackets_render_ofText (t : String) :
    Template.hasBrackets (ofText t).render = Template.hasBrackets t :=
  hasBrackets_congr ((isSeen_pair (by decide)).render_ofChars _)
    ((isSeen_pair (by decide)).render_ofChars _)

mutual

/-- Whether the node of a shape holds brackets does not depend on the names that were qualified. -/
theorem hasBrackets_qualify (hA : Template.hasBrackets sc.aliasName = false) :
    ∀ s : Shape, hasBrackets (s.qualify sc).toValue = hasBrackets s.toValue
  | .scalar _ => rfl
  | .reference name => by
      have h := hasBrackets_render_qualify hA (.reference name)
      rw [qualify, Scope.reference_eq] at h ⊢
      exact h
  | .array element => by
      rw [qualify, toValue, toValue, isInline_qualify]
      split
      · simp only [hasBrackets, entriesHaveBrackets, hasBrackets_qualify hA element]
      · exact hasBrackets_render_qualify hA (.array element)
  | .inline type properties items facets => by
      have hempty : (qualifyEntries sc properties).isEmpty = properties.isEmpty := by
        cases properties <;> rfl
      -- the entries correspond one by one, so the brackets in them do
      rw [qualify, toValue, toValue, hempty]
      refine entriesHaveBrackets_congr (sameBrackets_facets facets (List.rel_append
        (List.rel_append (sameBrackets_optionEntry hA "type" type) ?_)
        (sameBrackets_optionEntry hA "items" items)))
      split
      · exact .nil
      · exact .cons ⟨rfl, entriesHaveBrackets_congr (sameBrackets_entriesOf hA properties)⟩ .nil

theorem sameBrackets_optionEntry (hA : Template.hasBrackets sc.aliasName = false) (name : String) :
    ∀ s : Option Shape, SameBrackets (optionEntry name (qualifyOption sc s)) (optionEntry name s)
  | none => .nil
  | some shape => .cons ⟨rfl, hasBrackets_qualify hA shape⟩ .nil

theorem sameBrackets_entriesOf (hA : Template.hasBrackets sc.aliasName = false) :
    ∀ ps : List (String × Shape), SameBrackets (entriesOf (qualifyEntries sc ps)) (entriesOf ps)
  | [] => .nil
  | (_, shape) :: rest => .cons ⟨rfl, hasBrackets_qualify hA shape⟩ (sameBrackets_entriesOf hA rest)

end

end Nodes

/-! ## Texts that are left -/

theorem joined_ne_nil {f : List Char → List Char} {ps : List (List Char)} {cs : List Char}
    (h : IsCut ps cs) (hunion : hasUnion cs = true) : joined (ps.map f) ≠ [] := by
  cases h with
  | last hnone =>
    rw [hunion] at hnone
    cases hnone
  | bar _ _ hcut =>
    rw [List.map_cons, joined_cons (by simpa using hcut.ne_nil)]
    simp

/-- Whether a text is left of a shape that is qualified depends on the empty name alone. -/
theorem render_qualify_eq_empty {sc sc' : Scope} (h : sc.rename "" = "" ↔ sc'.rename "" = "") :
    ∀ s : Shape, (s.qualify sc).render = "" ↔ (s.qualify sc').render = ""
  | .scalar _ => Iff.rfl
  | .reference name => by
      rw [qualify, qualify, Scope.reference_eq, Scope.reference_eq, render, render]
      by_cases hunion : hasUnion name.toList = true
      · -- a union keeps its bars, so it is not empty
        have hleft : ∀ s : Scope, s.referenceText name ≠ "" := by
          intro s hempty
          refine joined_ne_nil (f := s.member) (isCut_stretches name.toList) hunion ?_
          rw [← Scope.toList_referenceText hunion, hempty]
          rfl
        exact iff_of_false (hleft sc) (hleft sc')
      · have hplain : ∀ s : Scope, s.referenceText name = s.rename name := fun s => if_neg hunion
        rw [hplain, hplain]
        by_cases hname : name = ""
        · rwa [hname]
        · -- a name stays, or gets an alias before it
          have hleft : ∀ s : Scope, s.rename name ≠ "" := by
            intro s
            rw [Scope.rename]
            split
            · simp
            · exact hname
          exact iff_of_false (hleft sc) (hleft sc')
  | .array element => by
      have hleft : ∀ e : Shape, render (.array e) ≠ "" := by
        intro e
        rw [render]
        split <;> simp
      exact iff_of_false (hleft _) (hleft _)
  | .inline (some type) properties items facets => render_qualify_eq_empty h type
  | .inline none properties items facets => by
      cases properties <;> exact Iff.rfl

end Raml.Shape
