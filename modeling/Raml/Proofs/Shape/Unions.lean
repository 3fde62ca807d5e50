import Mathlib.Data.List.Basic
import Raml.Proofs.Shape.Members

/-!
# Unions and their members

Whether an expression is a union and what its members are is found out by two scans, which agree:
`hasUnion_iff` says that an expression is a union just if it has two members or more. A member is
never a union itself, so members that are joined again are cut where they were joined, and what is
joined has the same members.

What a union loses when it is cut are the bars and the blanks around them. `tight` leaves out these
blanks and no others, without a look at the members, and what it comes to are the members with bare
bars between them (`tightFrom_of_isCut`).
-/

namespace Raml.Shape.Expression

open Text (isBlank dropAround dropStart)

variable {cs : List Char} {ps : List (List Char)}

/-! ## Both scans -/

theorem isCut_length (h : IsCut ps cs) : hasUnion cs = true ↔ 2 ≤ ps.length := by
  cases h with
  | last hnone => simp [hnone]
  | @bar p cs ps hnone hdepth hcut =>
    have hbar : hasUnion (p ++ '|' :: cs) = true := by
      rw [hasUnion, hasUnionFrom_append, hdepth]
      exact Bool.or_true _
    have hrest := List.length_pos_iff.mpr hcut.ne_nil
    rw [List.length_cons]
    exact iff_of_true hbar (by omega)

/-- An expression is a union just if it has two members or more. -/
theorem hasUnion_iff (cs : List Char) : hasUnion cs = true ↔ 2 ≤ (memberChars cs).length := by
  rw [memberChars, List.length_map]
  exact isCut_length (isCut_stretches cs)

/-! ## Members of members -/

/-- No member of a union is a union itself. -/
theorem IsCut.hasUnion_of_mem (h : IsCut ps cs) {p : List Char} (hp : p ∈ ps) :
    hasUnion p = false := by
  induction h with
  | last hnone =>
    rw [List.mem_singleton.mp hp]
    exact hnone
  | bar hnone _ _ ih =>
    rcases List.mem_cons.mp hp with rfl | hp
    · exact hnone
    · exact ih hp

/-- No member is a union. -/
theorem hasUnion_of_mem_memberChars {m : List Char} (h : m ∈ memberChars cs) :
    hasUnion m = false := by
  obtain ⟨p, hp, rfl⟩ := List.mem_map.mp h
  rw [hasUnion_dropAround]
  exact (isCut_stretches cs).hasUnion_of_mem hp

/-- A text without a union is in one stretch. -/
theorem stretchesFrom_of_hasUnionFrom {depth : Int} (h : hasUnionFrom depth cs = false) :
    stretchesFrom depth cs = [cs] := by
  induction cs generalizing depth with
  | nil => rfl
  | cons c cs ih =>
    rw [hasUnionFrom, Bool.or_eq_false_iff] at h
    rw [stretchesFrom_cons h.1, ih h.2]
    rfl

/-- What is no union is its own member, once the blanks around it are dropped. -/
theorem memberChars_of_hasUnion (h : hasUnion cs = false) :
    memberChars cs = [dropAround isBlank cs] := by
  rw [memberChars, stretchesFrom_of_hasUnionFrom h, List.map_singleton]

/-- Members that are joined again are the members of what is joined. -/
theorem memberChars_joined_memberChars (cs : List Char) :
    memberChars (joined (memberChars cs)) = memberChars cs := by
  have hcut := isCut_stretches cs
  have hkeeps : KeepsDepth (dropAround isBlank) (stretchesFrom 0 cs) :=
    fun p _ depth => depthAfter_dropAround depth p
  -- each stretch is no union, so what is left of it is its only member
  have halone : ∀ p ∈ stretchesFrom 0 cs,
      memberChars (dropAround isBlank p) = [dropAround isBlank p] := by
    intro p hp
    obtain ⟨a, b, ha, hb, hsplit⟩ := Text.eq_append_dropAround isBlank p
    have hblanks := memberChars_blanks ha hb (dropAround isBlank p)
    rw [← hsplit] at hblanks
    rw [← hblanks]
    exact memberChars_of_hasUnion (hcut.hasUnion_of_mem hp)
  calc memberChars (joined (memberChars cs))
      = (stretchesFrom 0 cs).flatMap fun p => memberChars (dropAround isBlank p) :=
        memberChars_joined hcut hkeeps
    _ = (stretchesFrom 0 cs).flatMap fun p => [dropAround isBlank p] := List.flatMap_congr halone
    _ = memberChars cs := (List.map_eq_flatMap ..).symm

/-! ## Bars without blanks -/

/-- Whether nothing but blanks comes before the next bar at the given depth, or before the end. -/
def leads (depth : Int) (cs : List Char) : Bool :=
  match dropStart isBlank cs with
  | [] => true
  | c :: _ => isBar depth c

/-- An expression without the blanks around bars that count and without those at its ends, starting
at the given depth; `fresh` says whether nothing but blanks came since the last such bar. -/
def tightFrom (depth : Int) (fresh : Bool) : List Char → List Char
  | [] => []
  | c :: cs =>
    if isBlank c && (fresh || leads depth (c :: cs)) then tightFrom depth fresh cs
    else c :: tightFrom (deeper depth c) (isBar depth c) cs

/-- An expression without the blanks around its bars and at its ends. -/
def tight (e : String) : String := String.ofList (tightFrom 0 true e.toList)

/-- Whether what comes next ends the stretch before it. -/
def Ends (depth : Int) (rest : List Char) : Prop := rest = [] ∨ ∃ cs, depth = 0 ∧ rest = '|' :: cs

theorem leads_of_ends {depth : Int} {b rest : List Char} (hb : IsBlanks b) (h : Ends depth rest) :
    leads depth (b ++ rest) = true := by
  rw [leads, Text.dropStart_append hb]
  rcases h with rfl | ⟨cs, rfl, rfl⟩
  · rfl
  · have hbar : dropStart isBlank ('|' :: cs) = '|' :: cs := Text.dropStart_of_head (by decide)
    rw [hbar]
    rfl

/-- Blanks at the start are left out. -/
theorem tightFrom_blanks {a : List Char} (ha : IsBlanks a) (depth : Int) (cs : List Char) :
    tightFrom depth true (a ++ cs) = tightFrom depth true cs := by
  induction a with
  | nil => rfl
  | cons c a ih =>
    obtain ⟨hc, ha⟩ := List.forall_mem_cons.mp ha
    rw [List.cons_append, tightFrom, hc, Bool.true_or, Bool.and_true, if_pos rfl, ih ha]

/-- Blanks before the end of a stretch are left out. -/
theorem tightFrom_blanks_of_ends {b rest : List Char} (hb : IsBlanks b) {depth : Int}
    (h : Ends depth rest) : tightFrom depth false (b ++ rest) = tightFrom depth false rest := by
  induction b with
  | nil => rfl
  | cons c b ih =>
    have hleads := leads_of_ends hb h
    rw [List.cons_append] at hleads ⊢
    obtain ⟨hc, hb⟩ := List.forall_mem_cons.mp hb
    rw [tightFrom, hc, hleads, Bool.or_true, Bool.and_true, if_pos rfl, ih hb]

/-- A blank inside a stretch does not lead to the end of it. -/
theorem leads_of_stretch {depth : Int} {p : List Char} (hnone : hasUnionFrom depth p = false)
    (hne : p ≠ []) (hlast : ∀ c ∈ p.getLast?, isBlank c = false) (rest : List Char) :
    leads depth (p ++ rest) = false := by
  induction p with
  | nil => exact absurd rfl hne
  | cons c p ih =>
    rw [hasUnionFrom, Bool.or_eq_false_iff] at hnone
    cases hc : isBlank c with
    | false =>
      rw [leads, List.cons_append, Text.dropStart_of_head hc]
      exact hnone.1
    | true =>
      -- a blank is not the last character of the stretch, and moves no depth
      have hp : p ≠ [] := by
        rintro rfl
        rw [hlast c rfl] at hc
        cases hc
      rw [deeper_of_isNeutral (isNeutral_of_isBlank hc)] at hnone
      rw [List.getLast?_cons_of_ne_nil hp] at hlast
      have hskip : dropStart isBlank (c :: p ++ rest) = dropStart isBlank (p ++ rest) :=
        Text.dropStart_append (a := [c]) (List.forall_mem_singleton.mpr hc) (p ++ rest)
      rw [leads, hskip]
      exact ih hnone.2 hp hlast

/-- A stretch that has begun is kept to its last character that is no blank. -/
theorem tightFrom_stretch {depth : Int} {p b rest : List Char}
    (hnone : hasUnionFrom depth p = false) (hlast : ∀ c ∈ p.getLast?, isBlank c = false)
    (hb : IsBlanks b) (hends : Ends (depthAfter depth p) rest) :
    tightFrom depth false (p ++ (b ++ rest)) = p ++ tightFrom (depthAfter depth p) false rest := by
  induction p generalizing depth with
  | nil => exact tightFrom_blanks_of_ends hb hends
  | cons c p ih =>
    have hkept := leads_of_stretch hnone (List.cons_ne_nil c p) hlast (b ++ rest)
    rw [hasUnionFrom, Bool.or_eq_false_iff] at hnone
    have hlast' : ∀ x ∈ p.getLast?, isBlank x = false := by
      intro x hx
      refine hlast x ?_
      rw [List.getLast?_cons, Option.mem_def.mp hx]
      rfl
    rw [List.cons_append] at hkept ⊢
    rw [tightFrom, hkept, Bool.or_false, Bool.and_false, if_neg Bool.false_ne_true, hnone.1,
      ih hnone.2 hlast' hends]
    rfl

/-- It does not matter to what ends a stretch whether that has begun. -/
theorem tightFrom_of_ends {depth : Int} {rest : List Char} (h : Ends depth rest) :
    tightFrom depth true rest = tightFrom depth false rest := by
  rcases h with rfl | ⟨cs, rfl, rfl⟩
  · rfl
  · rfl

/-- A stretch comes down to its member. -/
theorem tightFrom_member {p rest : List Char} (hnone : hasUnion p = false)
    (hends : Ends (depthAfter 0 p) rest) : tightFrom 0 true (p ++ rest) =
      dropAround isBlank p ++ tightFrom (depthAfter 0 p) true rest := by
  -- blanks move no depth, so all that is asked of the stretch holds of its member too
  rw [← depthAfter_dropAround] at hends ⊢
  rw [← hasUnion_dropAround] at hnone
  have hbare := Text.isBare_dropAround isBlank p
  obtain ⟨a, b, ha, hb, hp⟩ := Text.eq_append_dropAround isBlank p
  generalize dropAround isBlank p = m at hp hnone hbare hends ⊢
  rw [hp, List.append_assoc, List.append_assoc, tightFrom_blanks ha]
  cases m with
  | nil => exact tightFrom_blanks hb 0 rest
  | cons c m =>
    -- the first character is no blank, so the stretch has begun with it
    have hfirst : tightFrom 0 true (c :: m ++ (b ++ rest)) =
        tightFrom 0 false (c :: m ++ (b ++ rest)) := by
      rw [List.cons_append, tightFrom, tightFrom, hbare.1 c rfl]
      rfl
    rw [hfirst, tightFrom_stretch hnone hbare.2 hb hends, tightFrom_of_ends hends]

/-- What an expression comes down to are its members with bars between them. -/
theorem tightFrom_of_isCut (h : IsCut ps cs) :
    tightFrom 0 true cs = ['|'].intercalate (ps.map (dropAround isBlank)) := by
  -- along the cuts: the depth is zero at each bar, so what comes after it is an expression again
  induction h with
  | @last p hnone =>
    have hmember : tightFrom 0 true (p ++ []) =
        dropAround isBlank p ++ tightFrom (depthAfter 0 p) true [] :=
      tightFrom_member hnone (.inl rfl)
    rw [List.append_nil] at hmember
    rw [hmember, tightFrom, List.append_nil, List.map_singleton, List.intercalate_singleton]
  | @bar p cs ps hnone hdepth hcut ih =>
    obtain ⟨q, qs, rfl⟩ := List.exists_cons_of_ne_nil hcut.ne_nil
    have hbar : tightFrom 0 true ('|' :: cs) = '|' :: tightFrom 0 true cs := rfl
    rw [tightFrom_member hnone (.inr ⟨cs, hdepth, rfl⟩), hdepth, hbar, ih]
    simp only [List.map_cons, List.intercalate_cons_cons, List.append_assoc, List.singleton_append]

/-! ## Expressions as texts -/

/-- **Unions and their members.** Whatever its parentheses, an expression is a union just if it has
two members or more. None of them is a union; joined again they are the members of what is joined;
and with bare bars between them they are the expression without the blanks around its bars and at
its ends. -/
theorem members_spec (e : String) :
    (hasUnion e.toList = true ↔ 2 ≤ (members e).length) ∧
    (∀ m ∈ members e, hasUnion m.toList = false) ∧
    members (String.intercalate " | " (members e)) = members e ∧
    tight e = String.intercalate "|" (members e) := by
  -- all four parts are about lists of characters, and the members are those as texts
  have htexts : (members e).map String.toList = memberChars e.toList := by
    rw [members, List.map_map]
    exact (List.map_congr_left fun m _ => String.toList_ofList).trans (List.map_id _)
  refine ⟨?_, ?_, ?_, ?_⟩
  · rw [hasUnion_iff, ← htexts, List.length_map]
  · intro m hm
    have hmem := List.mem_map_of_mem (f := String.toList) hm
    rw [htexts] at hmem
    exact hasUnion_of_mem_memberChars hmem
  · have hjoined : (String.intercalate " | " (members e)).toList =
        joined (memberChars e.toList) := by
      rw [String.toList_intercalate, htexts]
      rfl
    rw [members, hjoined, memberChars_joined_memberChars, members]
  · apply String.toList_injective
    rw [tight, String.toList_ofList, String.toList_intercalate, htexts,
      tightFrom_of_isCut (isCut_stretches _)]
    rfl

/-- Bars inside parentheses stay, and so do blanks that are at no bar. -/
example : tight " Book | (Film | A  B)[]|| C) " = "Book|(Film | A  B)[]||C)" := by decide

end Raml.Shape.Expression
