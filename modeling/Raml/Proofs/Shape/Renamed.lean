import Raml.Proofs.Shape.Qualified
import Raml.Proofs.Shape.Tokens
import Raml.Proofs.Shape.Unions

/-!
# The names in a qualified shape

The tokens of a qualified shape are those of the shape, the declared names renamed
(`qualify_renames`), and so are the names that it mentions (`mentions_qualify`). The text of a
qualified expression has to be read for this, as that of a union is when its members are looked at:
qualifying keeps the depth of parentheses (`KeepsParens`), so the bars that count are the ones that
did before, and those of members that have lost their parentheses and are unions themselves.

Texts of schemas stand in the way. A member that is one may hold bars that count once the
parentheses around it are gone, so nothing in a union may open like a schema (`opensSchema`).
-/

namespace Raml

theorem Application.aliasName?_eq {app : Application} {A : String}
    (halias : app.aliasName = some A) (hne : A ≠ "") : app.aliasName? = some A := by
  rw [aliasName?, halias, Option.filter_some, if_pos]
  simpa using hne

theorem Application.qualify_eq {app : Application} {A : String} (halias : app.aliasName = some A)
    (hne : A ≠ "") (s : Shape) : app.qualify s = s.qualify ⟨A, app.types⟩ := by
  rw [qualify, aliasName?_eq halias hne]

namespace Shape

open Expression
open Text (isBlank dropAround dropStart)

/-! ## Plain names -/

/-- Whether a character can stand in a name without a meaning of its own in expressions. -/
def isWordChar (c : Char) : Bool :=
  !isBlank c && !(['(', ')', '[', ']', '|', '\x7b', '<', '>'].contains c)

/-- A text that is a name wherever it stands. -/
structure IsWord (s : String) : Prop where
  ne_empty : s ≠ ""
  chars : ∀ c ∈ s.toList, isWordChar c = true

instance (s : String) : Decidable (IsWord s) :=
  decidable_of_iff (s ≠ "" ∧ s.toList.all isWordChar = true)
    ⟨fun h => ⟨h.1, List.all_eq_true.mp h.2⟩, fun h => ⟨h.ne_empty, List.all_eq_true.mpr h.chars⟩⟩

namespace IsWord

variable {s t : String}

theorem not_mem (h : IsWord s) {c : Char} (hc : isWordChar c = false) : c ∉ s.toList := by
  intro hmem
  rw [h.chars c hmem] at hc
  cases hc

/-- Words side by side are a word. -/
theorem append (hs : IsWord s) (ht : IsWord t) : IsWord (s ++ t) := by
  refine ⟨fun hempty => hs.ne_empty ?_, ?_⟩
  · exact (String.append_eq_empty_iff.mp hempty).1
  · rw [String.toList_append, List.forall_mem_append]
    exact ⟨hs.chars, ht.chars⟩

theorem isBlank_eq (h : IsWord s) {c : Char} (hc : c ∈ s.toList) : isBlank c = false := by
  have hword := h.chars c hc
  rw [isWordChar, Bool.and_eq_true, Bool.not_eq_true'] at hword
  exact hword.1

theorem neutral (h : IsWord s) : ∀ c ∈ s.toList, isNeutral c = true := by
  intro c hc
  have hopening : c ≠ '(' := fun heq => h.not_mem (c := '(') (by decide) (heq ▸ hc)
  have hclosing : c ≠ ')' := fun heq => h.not_mem (c := ')') (by decide) (heq ▸ hc)
  have hbar : c ≠ '|' := fun heq => h.not_mem (c := '|') (by decide) (heq ▸ hc)
  simp [isNeutral, hopening, hclosing, hbar]

theorem neutral_dotted (h : IsWord s) : ∀ c ∈ (s ++ ".").toList, isNeutral c = true := by
  rw [String.toList_append]
  exact List.forall_mem_append.mpr ⟨h.neutral, List.all_eq_true.mp rfl⟩

/-- A word holds no brackets. -/
theorem hasBrackets (h : IsWord s) : Template.hasBrackets s = false := by
  rw [Template.hasBrackets_eq_false_iff]
  exact ⟨fun hpair => h.not_mem (c := '<') (by decide) (hpair.subset (List.mem_cons_self ..)),
    fun hpair => h.not_mem (c := '>') (by decide) (hpair.subset (List.mem_cons_self ..))⟩

theorem isSchema (h : IsWord s) : Shape.isSchema s.toList = false := by
  rw [← Bool.not_eq_true, isSchema_iff]
  obtain ⟨c, cs, hcs⟩ := List.exists_cons_of_ne_nil (fun hnil => h.ne_empty
    (String.toList_inj.mp hnil))
  have hmem : c ∈ s.toList := hcs ▸ List.mem_cons_self ..
  rw [hcs, Text.dropStart_of_head (h.isBlank_eq hmem), List.head?_cons]
  rintro (heq | heq)
  · exact h.not_mem (c := '\x7b') (by decide) (Option.some.inj heq ▸ hmem)
  · exact h.not_mem (c := '<') (by decide) (Option.some.inj heq ▸ hmem)

/-- A name that is no built-in type is read as a reference to it. -/
theorem ofChars (h : IsWord s) (hbuiltin : s ∉ builtins) :
    Expression.ofChars s.toList = .reference s := by
  have hbare : Text.IsBare isBlank s.toList :=
    ⟨fun c hc => h.isBlank_eq (List.mem_of_mem_head? hc),
      fun c hc => h.isBlank_eq (List.mem_of_mem_getLast? hc)⟩
  have hsuffix : hasSuffix s.toList = false := by
    rw [← Bool.not_eq_true, hasSuffix, List.isSuffixOf_iff_suffix]
    exact fun hsuffix => h.not_mem (c := ']') (by decide) (hsuffix.subset (by simp))
  have hwrapped : isWrapped s.toList = false := by
    rw [← Bool.not_eq_true, isWrapped_iff]
    rintro ⟨inner, hinner, -⟩
    exact h.not_mem (c := '(') (by decide) (by simp [hinner])
  rw [ofChars_eq h.isSchema, Text.dropAround_of_isBare hbare]
  simp [hsuffix, hwrapped, String.ofList_toList, hbuiltin]

end IsWord

/-- A library whose alias is a name, and which declares names. -/
structure Scope.IsWorded (sc : Scope) : Prop where
  aliasName : IsWord sc.aliasName
  declared : ∀ n ∈ sc.declared, IsWord n

instance (sc : Scope) : Decidable sc.IsWorded :=
  decidable_of_iff (IsWord sc.aliasName ∧ ∀ n ∈ sc.declared, IsWord n)
    ⟨fun h => ⟨h.1, h.2⟩, fun h => ⟨h.aliasName, h.declared⟩⟩

/-- A library whose alias is a name, and which declares names without dots. -/
structure Scope.IsProper (sc : Scope) : Prop where
  aliasName : IsWord sc.aliasName
  declared : ∀ n ∈ sc.declared, IsWord n ∧ '.' ∉ n.toList

instance (sc : Scope) : Decidable sc.IsProper :=
  decidable_of_iff (IsWord sc.aliasName ∧ ∀ n ∈ sc.declared, IsWord n ∧ '.' ∉ n.toList)
    ⟨fun h => ⟨h.1, h.2⟩, fun h => ⟨h.aliasName, h.declared⟩⟩

theorem Scope.IsProper.isWorded {sc : Scope} (h : sc.IsProper) : sc.IsWorded :=
  ⟨h.aliasName, fun n hn => (h.declared n hn).1⟩

/-! ## Parentheses -/

namespace Expression

/-- The depth after a text moves with the depth before it. -/
theorem depthAfter_add (base depth : Int) (cs : List Char) :
    depthAfter (base + depth) cs = base + depthAfter depth cs := by
  induction cs generalizing depth with
  | nil => rfl
  | cons c cs ih =>
    change depthAfter (deeper (base + depth) c) cs = base + depthAfter (deeper depth c) cs
    rw [deeper_add, ih]

/-- What stays open does so further inside. -/
theorem staysOpen_add {base depth : Int} {cs : List Char} (hb : 0 ≤ base) (hd : 1 ≤ depth)
    (h : staysOpen depth cs = true) : staysOpen (base + depth) cs = true := by
  induction cs generalizing depth with
  | nil => rfl
  | cons c cs ih =>
    rw [staysOpen, Bool.and_eq_true] at h
    have hhere : staysOpen depth [c] = true := by
      rw [staysOpen, h.1]
      rfl
    have hinside : 1 ≤ deeper depth c := one_le_depthAfter hd hhere
    rw [staysOpen, deeper_add, ih hinside h.2, Bool.and_true]
    have hc := h.1
    simp only [Bool.not_eq_true', Bool.and_eq_false_iff, beq_eq_false_iff_ne] at hc ⊢
    exact hc.imp_right fun hne => by omega

/-- Parentheses that stay open from one level do from every level above. -/
theorem staysOpen_of_one {depth : Int} {cs : List Char} (hd : 1 ≤ depth)
    (h : staysOpen 1 cs = true) : staysOpen depth cs = true := by
  have hbase : 0 ≤ depth - 1 := by omega
  have hadd := staysOpen_add hbase (Int.le_refl 1) h
  rwa [Int.sub_add_cancel] at hadd

/-- What becomes of a text when its parentheses are rewritten: the depth after it is the same, and
what stayed open does so still. -/
structure KeepsParens (xs ys : List Char) : Prop where
  depthAfter : ∀ depth, depthAfter depth ys = depthAfter depth xs
  staysOpen : ∀ depth, 1 ≤ depth → staysOpen depth xs = true → staysOpen depth ys = true

namespace KeepsParens

variable {xs ys : List Char}

theorem refl (xs : List Char) : KeepsParens xs xs := ⟨fun _ => rfl, fun _ _ h => h⟩

/-- Characters before a text that are no parentheses do not matter. -/
theorem left {o : List Char} (ho : ∀ c ∈ o, isNeutral c = true) (h : KeepsParens xs ys) :
    KeepsParens (o ++ xs) ys := by
  constructor
  · intro depth
    rw [h.depthAfter, depthAfter_append, depthAfter_of_neutral ho]
  · intro depth hd hs
    rw [staysOpen_append, depthAfter_of_neutral ho, Bool.and_eq_true] at hs
    exact h.staysOpen depth hd hs.2

/-- Characters after a text that are no parentheses do not matter. -/
theorem right {o : List Char} (ho : ∀ c ∈ o, isNeutral c = true) (h : KeepsParens xs ys) :
    KeepsParens (xs ++ o) ys := by
  constructor
  · intro depth
    rw [h.depthAfter, depthAfter_append, depthAfter_of_neutral ho]
  · intro depth hd hs
    rw [staysOpen_append, Bool.and_eq_true] at hs
    exact h.staysOpen depth hd hs.1

theorem blanks {a b : List Char} (ha : IsBlanks a) (hb : IsBlanks b) (h : KeepsParens xs ys) :
    KeepsParens (a ++ xs ++ b) ys :=
  right (neutral_of_blanks hb) (left (neutral_of_blanks ha) h)

theorem append_neutral {o : List Char} (ho : ∀ c ∈ o, isNeutral c = true)
    (h : KeepsParens xs ys) : KeepsParens xs (ys ++ o) := by
  constructor
  · intro depth
    rw [depthAfter_append, depthAfter_of_neutral ho, h.depthAfter]
  · intro depth hd hs
    rw [staysOpen_append, h.staysOpen depth hd hs, staysOpen_of_neutral ho]
    rfl

theorem neutral_append {o : List Char} (ho : ∀ c ∈ o, isNeutral c = true) :
    KeepsParens xs (o ++ xs) := by
  constructor
  · intro depth
    rw [depthAfter_append, depthAfter_of_neutral ho]
  · intro depth _ hs
    rw [staysOpen_append, staysOpen_of_neutral ho, depthAfter_of_neutral ho, hs]
    rfl

/-- Parentheses may be put around a text. -/
theorem parenthesized (h : KeepsParens xs ys) : KeepsParens xs ('(' :: ys ++ [')']) := by
  -- inside of the new parentheses everything is one level deeper
  have hopened : ∀ depth, Expression.depthAfter (depth + 1) ys =
      Expression.depthAfter depth xs + 1 := by
    intro depth
    rw [h.depthAfter, Int.add_comm, depthAfter_add, Int.add_comm]
  constructor
  · intro depth
    change Expression.depthAfter (depth + 1) (ys ++ [')']) = _
    rw [depthAfter_append, hopened]
    exact Int.add_sub_cancel _ 1
  · intro depth hd hs
    have hinside : Expression.staysOpen (depth + 1) ys = true := by
      refine h.staysOpen _ (by omega) ?_
      rw [Int.add_comm]
      exact staysOpen_add (by decide) hd hs
    have hlevel := one_le_depthAfter hd hs
    change (true && Expression.staysOpen (depth + 1) (ys ++ [')'])) = true
    rw [Bool.true_and, staysOpen_append, hinside, hopened, Expression.staysOpen]
    simp only [Bool.true_and, Bool.and_eq_true, Bool.not_eq_true', Bool.and_eq_false_iff,
      beq_eq_false_iff_ne]
    exact ⟨.inr (by omega), rfl⟩

/-- Parentheses around a text that stays open in them may be taken away. -/
theorem unwrapped (hopen : Expression.staysOpen 1 xs = true) (h : KeepsParens xs ys) :
    KeepsParens ('(' :: xs ++ [')']) ys := by
  constructor
  · intro depth
    change _ = Expression.depthAfter (depth + 1) (xs ++ [')'])
    rw [h.depthAfter, depthAfter_append, Int.add_comm depth, depthAfter_add]
    change _ = 1 + Expression.depthAfter depth xs - 1
    omega
  · intro depth hd _
    exact h.staysOpen depth hd (staysOpen_of_one hd hopen)

end KeepsParens

end Expression

section Parens

variable {sc : Scope}

/-- Renaming puts words in the place of words and keeps the parentheses. -/
theorem keepsParens_rename (hA : IsWord sc.aliasName) (name : String) :
    KeepsParens name.toList (sc.rename name).toList := by
  rw [Scope.rename]
  split
  · rw [String.toList_append]
    exact .neutral_append hA.neutral_dotted
  · exact .refl _

/-- Qualifying keeps the parentheses of an expression, if it does those of its references. -/
theorem keepsParens_of_references {cs : List Char}
    (h : ∀ t ∈ (ofChars cs).references, KeepsParens t.toList (sc.referenceText t).toList) :
    KeepsParens cs ((ofChars cs).qualify sc).render.toList := by
  have hsuffix : ∀ c ∈ ['[', ']'], isNeutral c = true := List.all_eq_true.mp rfl
  induction cs using ofChars_cases with
  | schema cs _ hread =>
    rw [hread, qualify, render, String.toList_ofList]
    exact .refl _
  | array a cs b ha hb _ _ hread ih =>
    rw [hread] at h ⊢
    rw [qualify, toList_render_array]
    refine .blanks ha hb (.right hsuffix ?_)
    split
    · -- a union below the suffix is put in parentheses
      exact (ih h).parenthesized.append_neutral hsuffix
    · exact (ih h).append_neutral hsuffix
  | wrapped a cs b ha hb hopen hread ih =>
    rw [hread] at h ⊢
    exact .blanks ha hb ((ih h).unwrapped hopen)
  | name a cs b ha hb _ hname =>
    refine .blanks ha hb ?_
    rcases eq_of_isName hname with hs | hs
    · rw [hs, qualify, render, String.toList_ofList]
      exact .refl _
    · rw [hs, qualify, Scope.reference_eq, render]
      have hname := h (String.ofList cs) (by rw [hs]; exact List.mem_singleton_self _)
      rwa [String.toList_ofList] at hname

theorem keepsParens_member {cs : List Char} (h : ∀ m ∈ memberChars cs,
      ∀ t ∈ (ofChars m).references, KeepsParens t.toList (sc.referenceText t).toList)
    {p : List Char} (hp : p ∈ stretchesFrom 0 cs) : KeepsParens p (sc.member p) := by
  have hmember := keepsParens_of_references (h _ (List.mem_map_of_mem hp))
  rw [← Scope.ofChars_eq, ← Scope.member] at hmember
  refine ⟨fun depth => ?_, fun depth hd hs => ?_⟩
  · rw [hmember.depthAfter, depthAfter_dropAround]
  · exact hmember.staysOpen depth hd (by rwa [staysOpen_dropAround])

/-- Rewriting a reference keeps the parentheses, a union included. -/
theorem keepsParens_referenceText (hA : IsWord sc.aliasName) (name : String) :
    KeepsParens name.toList (sc.referenceText name).toList := by
  induction name using reference_induction with
  | step name ih =>
    by_cases hunion : hasUnion name.toList = true
    · have hmember := fun p => keepsParens_member (ih hunion) (p := p)
      have hcut := isCut_stretches name.toList
      have hkeeps : KeepsDepth sc.member (stretchesFrom 0 name.toList) :=
        fun p hp => (hmember p hp).depthAfter
      rw [Scope.toList_referenceText hunion]
      exact ⟨depthAfter_joined hcut hkeeps,
        fun depth hd => staysOpen_joined hcut hkeeps (fun p hp => (hmember p hp).staysOpen) hd⟩
    · rw [Scope.referenceText, if_neg hunion]
      exact keepsParens_rename hA name

/-- Qualifying keeps the parentheses of an expression. -/
theorem keepsParens_qualify (hA : IsWord sc.aliasName) (cs : List Char) :
    KeepsParens cs ((ofChars cs).qualify sc).render.toList :=
  keepsParens_of_references fun t _ => keepsParens_referenceText hA t

theorem keepsDepth_member (hA : IsWord sc.aliasName) (cs : List Char) :
    KeepsDepth sc.member (stretchesFrom 0 cs) := fun _ hp =>
  (keepsParens_member (fun _ _ t _ => keepsParens_referenceText hA t) hp).depthAfter

end Parens

/-! ## Unions -/

section Unions

variable {sc : Scope} (hA : IsWord sc.aliasName)
include hA

/-- Renaming brings no union in and takes none out. -/
theorem hasUnion_rename (name : String) :
    hasUnion (sc.rename name).toList = hasUnion name.toList := by
  rw [Scope.rename]
  split
  · have hdot := hA.neutral_dotted
    rw [String.toList_append, hasUnion, hasUnionFrom_append, hasUnionFrom_of_neutral hdot,
      depthAfter_of_neutral hdot, Bool.false_or, hasUnion]
  · rfl

/-- Rewriting a reference brings no union in and takes none out. -/
theorem hasUnion_referenceText (name : String) :
    hasUnion (sc.referenceText name).toList = hasUnion name.toList := by
  by_cases hunion : hasUnion name.toList = true
  · rw [Scope.toList_referenceText hunion, hunion]
    exact hasUnion_joined (isCut_stretches _) (keepsDepth_member hA _) hunion
  · rw [Scope.referenceText, if_neg hunion, hasUnion_rename hA]

/-- A union stays one when it is qualified, and nothing else becomes one. -/
theorem isUnion_qualify (s : Shape) : (s.qualify sc).isUnion = s.isUnion := by
  cases s with
  | reference name =>
    rw [qualify, Scope.reference_eq]
    exact hasUnion_referenceText hA name
  | _ => rfl

/-- A union that is no union as it is written stands in parentheses. -/
theorem staysOpen_of_isUnion {cs : List Char} (hnone : hasUnion cs = false)
    (hunion : (ofChars cs).isUnion = true) :
    staysOpen 1 ((ofChars cs).qualify sc).render.toList = true := by
  induction cs using ofChars_cases with
  | schema cs _ hread =>
    rw [hread] at hunion
    cases hunion
  | array a cs b _ _ _ _ hread _ =>
    rw [hread] at hunion
    cases hunion
  | wrapped a cs b _ _ hopen hread _ =>
    rw [hread]
    exact (keepsParens_qualify hA cs).staysOpen 1 (Int.le_refl 1) hopen
  | name a cs b ha hb _ hname =>
    rw [hasUnion_blanks ha hb, ← hname.isUnion, hunion] at hnone
    cases hnone

end Unions

/-! ## Texts of schemas -/

/-- Whether a text may have that of a schema in it. -/
def opensSchema (cs : List Char) : Prop := '\x7b' ∈ cs ∨ '<' ∈ cs

instance (cs : List Char) : Decidable (opensSchema cs) :=
  inferInstanceAs (Decidable ('\x7b' ∈ cs ∨ '<' ∈ cs))

theorem isSeen_opensSchema : IsSeen opensSchema := by
  constructor
  · rintro (h | h) <;> cases h
  · intro c xs ys hc
    have hbrace : '\x7b' ≠ c := by
      rintro rfl
      exact absurd hc (by decide)
    have hangle : '<' ≠ c := by
      rintro rfl
      exact absurd hc (by decide)
    simp only [opensSchema, List.mem_append, List.mem_cons, hbrace, hangle, false_or]
    exact or_or_or_comm

theorem isSchema_of_not_opensSchema {cs : List Char} (h : ¬opensSchema cs) :
    isSchema cs = false := by
  rw [← Bool.not_eq_true, isSchema_iff]
  have hmem : ∀ c, (dropStart isBlank cs).head? = some c → c ∈ cs := fun c hc =>
    (List.dropWhile_suffix _).subset (List.mem_of_mem_head? hc)
  exact fun hopens => h (hopens.imp (hmem _) (hmem _))

theorem IsWord.not_opensSchema {s : String} (h : IsWord s) : ¬opensSchema s.toList := by
  rintro (hmem | hmem)
  · exact h.not_mem (by decide) hmem
  · exact h.not_mem (by decide) hmem

/-! ## Tokens of what is renamed -/

/-- Blanks around a text do not matter for its members. -/
theorem memberChars_dropAround (cs : List Char) :
    memberChars (dropAround isBlank cs) = memberChars cs := by
  obtain ⟨a, b, ha, hb, hcs⟩ := Text.eq_append_dropAround isBlank cs
  rw [← memberChars_blanks ha hb, ← hcs]

theorem tokensIn_blanks {a b cs : List Char} (ha : IsBlanks a) (hb : IsBlanks b)
    (h : isSchema cs = false) : tokensIn (a ++ cs ++ b) = tokensIn cs := by
  rw [← tokens_ofChars, ofChars_blanks ha hb h, tokens_ofChars]

/-- The tokens of a union are those of its members. -/
theorem tokensIn_of_hasUnion {cs : List Char} (hschema : isSchema cs = false)
    (hunion : hasUnion cs = true) : tokensIn cs = (memberChars cs).flatMap tokensIn := by
  rw [tokensIn_of_reference (ofChars_union hschema hunion), referenceTokens, String.toList_ofList,
    hasUnion_dropAround, if_pos hunion, memberChars_dropAround]

/-- The tokens of an expression are those of its members; it may be its only one. -/
theorem flatMap_tokensIn_memberChars {cs : List Char} (hschema : isSchema cs = false) :
    (memberChars cs).flatMap tokensIn = tokensIn cs := by
  by_cases hunion : hasUnion cs = true
  · rw [tokensIn_of_hasUnion hschema hunion]
  · rw [Bool.not_eq_true] at hunion
    obtain ⟨a, b, ha, hb, hcs⟩ := Text.eq_append_dropAround isBlank cs
    rw [memberChars_of_hasUnion hunion, List.flatMap_singleton,
      ← tokensIn_blanks ha hb (isSchema_dropAround hschema), ← hcs]

/-- The tokens of an array are those of its element, between its ends. -/
theorem tokensIn_array {cs : List Char} (hschema : isSchema cs = false)
    (hunion : hasUnion cs = false) :
    tokensIn (cs ++ ['[', ']']) = .opens :: (tokensIn cs ++ [.closes]) := by
  rw [← tokens_ofChars, ofChars_array hschema hunion, ← tokens_ofChars, tokens, tokensWith, tokens]

/-- A reference that was read of an expression is read again as itself, and what is seen in it was
seen in the expression. -/
theorem of_core_eq_reference {cs : List Char} {name : String}
    (h : (ofChars cs).core = .reference name) :
    ofChars name.toList = .reference name ∧
      ∀ P : List Char → Prop, IsSeen P → (P name.toList ↔ P cs) := by
  -- suffixes and parentheses around the core show nothing that the core does not
  induction cs using ofChars_cases with
  | schema cs _ hread =>
    rw [hread] at h
    cases h
  | array a cs b ha hb _ _ hread ih =>
    rw [hread] at h
    exact ⟨(ih h).1, fun P hP => by rw [(ih h).2 P hP, hP.array ha hb]⟩
  | wrapped a cs b ha hb _ hread ih =>
    rw [hread] at h
    exact ⟨(ih h).1, fun P hP => by rw [(ih h).2 P hP, hP.wrapped ha hb]⟩
  | name a cs b ha hb hschema hname =>
    rcases eq_of_isName hname with hs | hs
    · rw [hs] at h
      cases h
    · rw [hs] at h
      obtain rfl := Shape.reference.inj h
      rw [String.toList_ofList]
      exact ⟨by rw [← ofChars_blanks ha hb hschema, hs], fun P hP => by rw [hP.blanks ha hb]⟩

theorem dot_not_mem_builtins : ∀ name ∈ builtins, '.' ∉ name.toList := by decide

section Renamed

variable {sc : Scope} (hsc : sc.IsWorded)
include hsc

/-- Qualifying does not turn a type expression into a schema. -/
theorem not_opensSchema_qualify {cs : List Char} (h : ¬opensSchema cs) :
    ¬opensSchema ((ofChars cs).qualify sc).render.toList := by
  rwa [render_qualify_iff isSeen_opensSchema hsc.aliasName.not_opensSchema,
    isSeen_opensSchema.render_ofChars]

/-- A qualified expression is a union as it is written if it is one. -/
theorem hasUnion_render_qualify {cs : List Char} (h : ¬opensSchema cs) :
    hasUnion ((ofChars cs).qualify sc).render.toList = (ofChars cs).isUnion := by
  induction cs using ofChars_cases with
  | schema cs hschema _ =>
    rw [isSchema_of_not_opensSchema h] at hschema
    cases hschema
  | array a cs b ha hb _ hnone hread ih =>
    rw [isSeen_opensSchema.array ha hb] at h
    rw [hread, qualify, toList_render_array, isUnion_qualify hsc.aliasName]
    split
    · -- a union below the suffix is put in parentheses
      rename_i hunion
      rw [hasUnion_suffix]
      exact hasUnion_wrapped (staysOpen_of_isUnion hsc.aliasName hnone hunion)
    · rename_i hunion
      rw [hasUnion_suffix, ih h]
      exact Bool.eq_false_iff.mpr hunion
  | wrapped a cs b ha hb _ hread ih =>
    rw [isSeen_opensSchema.wrapped ha hb] at h
    rw [hread, ih h]
  | name a cs b ha hb _ hname =>
    rw [hname.isUnion]
    rcases eq_of_isName hname with hs | hs
    · have hunion := hname.isUnion
      rw [hs] at hunion ⊢
      rw [qualify, render, String.toList_ofList]
    · rw [hs, qualify, Scope.reference_eq, render, hasUnion_referenceText hsc.aliasName,
        String.toList_ofList]

/-- The tokens of a qualified expression are the renamed ones, if those of its references are. -/
theorem tokensIn_of_references {cs : List Char} (hplain : ¬opensSchema cs)
    (h : ∀ t ∈ (ofChars cs).references,
      tokensIn (sc.referenceText t).toList = (tokensIn t.toList).map (Token.rename sc)) :
    tokensIn ((ofChars cs).qualify sc).render.toList = (tokensIn cs).map (Token.rename sc) := by
  -- along the reading of the text; the blanks around a part of it never matter
  induction cs using ofChars_cases with
  | schema cs hschema _ =>
    rw [isSchema_of_not_opensSchema hplain] at hschema
    cases hschema
  | array a cs b ha hb hschema hnone hread ih =>
    rw [isSeen_opensSchema.array ha hb] at hplain
    rw [hread] at h
    have hinner := ih hplain h
    have hrendered := isSchema_of_not_opensSchema (not_opensSchema_qualify hsc hplain)
    have hends : (tokensIn (cs ++ ['[', ']'])).map (Token.rename sc) =
        .opens :: ((tokensIn cs).map (Token.rename sc) ++ [.closes]) := by
      rw [tokensIn_array hschema hnone, List.map_cons, List.map_append]
      rfl
    rw [tokensIn_blanks ha hb (isSchema_suffix hschema), hends, hread, qualify,
      toList_render_array, isUnion_qualify hsc.aliasName]
    split
    · -- a union below the suffix is written in parentheses, and read from them again
      rename_i hunion
      have hopen := staysOpen_of_isUnion hsc.aliasName hnone hunion
      rw [tokensIn_array rfl (hasUnion_wrapped hopen), ← tokens_ofChars, ofChars_wrapped hopen,
        tokens_ofChars, hinner]
    · rename_i hunion
      have hnone' := (hasUnion_render_qualify hsc hplain).trans (Bool.eq_false_iff.mpr hunion)
      rw [tokensIn_array hrendered hnone', hinner]
  | wrapped a cs b ha hb hopen hread ih =>
    rw [isSeen_opensSchema.wrapped ha hb] at hplain
    rw [hread] at h ⊢
    rw [ih hplain h, ← tokens_ofChars, ← tokens_ofChars (a ++ _ ++ b), hread]
  | name a cs b ha hb hschema hname =>
    rw [tokensIn_blanks ha hb hschema]
    have hread := ofChars_blanks ha hb hschema
    rcases eq_of_isName hname with hs | hs
    · rw [hs, qualify, render, String.toList_ofList, ← tokens_ofChars, ← hread, hs]
      rfl
    · have hname := h (String.ofList cs) (by rw [hs]; exact List.mem_singleton_self _)
      rw [String.toList_ofList] at hname
      rw [hs, qualify, Scope.reference_eq, render, hname]

theorem isWord_rename {name : String} (h : name ∈ sc.declared) :
    IsWord (sc.aliasName ++ "." ++ name) := by
  have hdot : IsWord "." := by decide
  exact (hsc.aliasName.append hdot).append (hsc.declared name h)

theorem not_opensSchema_referenceText {name : String} (h : ¬opensSchema name.toList) :
    ¬opensSchema (sc.referenceText name).toList := by
  rwa [referenceText_iff isSeen_opensSchema hsc.aliasName.not_opensSchema]

/-- What is made of a reference is read as a reference again. -/
theorem tokensIn_referenceText {name : String} (hplain : ¬opensSchema name.toList)
    (hread : ofChars name.toList = .reference name) :
    tokensIn (sc.referenceText name).toList = referenceTokens (sc.referenceText name) := by
  have hschema := isSchema_of_not_opensSchema (not_opensSchema_referenceText hsc hplain)
  by_cases hunion : hasUnion name.toList = true
  · rw [← hasUnion_referenceText hsc.aliasName] at hunion
    rw [tokensIn_of_hasUnion hschema hunion, referenceTokens, if_pos hunion]
  · refine tokensIn_of_reference ?_
    rw [Scope.referenceText, if_neg hunion, Scope.rename]
    split
    · rename_i hdeclared
      refine (isWord_rename hsc (List.contains_iff_mem.mp hdeclared)).ofChars fun hmem => ?_
      exact dot_not_mem_builtins _ hmem (by simp)
    · exact hread

/-- The tokens of a reference are renamed with it. -/
theorem referenceTokens_referenceText (name : String) (hplain : ¬opensSchema name.toList) :
    referenceTokens (sc.referenceText name) = (referenceTokens name).map (Token.rename sc) := by
  induction name using reference_induction with
  | step name ih =>
    by_cases hunion : hasUnion name.toList = true
    · have hmembers : ∀ p ∈ stretchesFrom 0 name.toList,
          (memberChars (sc.member p)).flatMap tokensIn =
            (tokensIn (dropAround isBlank p)).map (Token.rename sc) := by
        intro p hp
        have hp' : ¬opensSchema (dropAround isBlank p) := by
          rw [isSeen_opensSchema.dropAround]
          exact fun hopens => hplain
            ((isSeen_opensSchema.of_isCut (isCut_stretches _)).mpr ⟨p, hp, hopens⟩)
        -- a member may have become a union itself, whose tokens are those of all its members
        rw [flatMap_tokensIn_memberChars, Scope.member, Scope.ofChars_eq,
          tokensIn_of_references hsc hp']
        · intro t ht
          obtain ⟨hread, hseen⟩ := of_core_eq_reference (core_of_mem_references ht)
          have ht' : ¬opensSchema t.toList := by rwa [hseen _ isSeen_opensSchema]
          rw [tokensIn_referenceText hsc ht' hread, tokensIn_of_reference hread,
            ih hunion _ (List.mem_map_of_mem hp) t ht ht']
        · rw [Scope.member, Scope.ofChars_eq]
          exact isSchema_of_not_opensSchema (not_opensSchema_qualify hsc hp')
      rw [referenceTokens, referenceTokens, hasUnion_referenceText hsc.aliasName, if_pos hunion,
        if_pos hunion, Scope.toList_referenceText hunion,
        memberChars_joined (isCut_stretches _) (keepsDepth_member hsc.aliasName _),
        List.flatMap_assoc, List.flatMap_congr hmembers, memberChars, List.flatMap_map,
        List.map_flatMap]
    · rw [referenceTokens, referenceTokens, hasUnion_referenceText hsc.aliasName, if_neg hunion,
        if_neg hunion, Scope.referenceText, if_neg hunion]
      rfl

/-- The tokens of a qualified shape are those of the shape, the declared names renamed. -/
theorem tokens_qualify {s : Shape} (hplain : ∀ t ∈ s.references, ¬opensSchema t.toList) :
    (s.qualify sc).tokens = s.tokens.map (Token.rename sc) := by
  rw [tokens, tokens, tokensWith_qualify, rename_tokensWith]
  exact tokensWith_congr s fun t ht => referenceTokens_referenceText hsc t (hplain t ht)

/-- The names that a qualified shape mentions are those of the shape, the declared ones renamed. -/
theorem mentions_qualify {s : Shape} (hplain : ∀ t ∈ s.references, ¬opensSchema t.toList) :
    (s.qualify sc).mentions = s.mentions.map sc.rename := by
  rw [← names_tokens, ← names_tokens, tokens_qualify hsc hplain, namesAmong_rename]

/-- The same of an expression, as it is written when it is qualified. -/
theorem namesIn_qualify {cs : List Char} (hplain : ¬opensSchema cs) :
    namesIn ((ofChars cs).qualify sc).render.toList = (namesIn cs).map sc.rename := by
  rw [← mentions_ofChars, ← mentions_ofChars, ← names_tokens, ← names_tokens, tokens_ofChars,
    tokens_ofChars, ← namesAmong_rename]
  refine congrArg namesAmong (tokensIn_of_references hsc hplain fun t ht => ?_)
  obtain ⟨hread, hseen⟩ := of_core_eq_reference (core_of_mem_references ht)
  have ht' : ¬opensSchema t.toList := by rwa [hseen _ isSeen_opensSchema]
  rw [tokensIn_referenceText hsc ht' hread, tokensIn_of_reference hread,
    referenceTokens_referenceText hsc t ht']

end Renamed

/-- **Qualifying renames the declared names and changes nothing else.** The names that a shape
mentions are renamed where they stand, also in the members of unions, and all its other tokens stay:
built-in types, texts of schemas, the ends of arrays, keys and facets. -/
theorem qualify_renames {app : Application} {A : String} (halias : app.aliasName = some A)
    (hsc : Scope.IsWorded ⟨A, app.types⟩) {s : Shape}
    (hplain : ∀ t ∈ s.references, '\x7b' ∉ t.toList ∧ '<' ∉ t.toList) :
    (app.qualify s).mentions = s.mentions.map (Scope.rename ⟨A, app.types⟩) ∧
      (app.qualify s).tokens = s.tokens.map (Token.rename ⟨A, app.types⟩) := by
  have hplain' : ∀ t ∈ s.references, ¬opensSchema t.toList :=
    fun t ht => not_or.mpr (hplain t ht)
  rw [Application.qualify_eq halias hsc.aliasName.ne_empty]
  exact ⟨mentions_qualify hsc hplain', tokens_qualify hsc hplain'⟩

/-- A library with dots in its names. -/
def maps : Application :=
  { Application.empty with aliasName := some "lib-2.x", types := ["Map", "lib.Map", "string"] }

/-- A declaration based on a union with parentheses that mean nothing or do not match. -/
def atlas : Shape :=
  .inline (some (.reference "(Map | string)[] | ((lib.Map | nil)) | Map) | (Pen"))
    [("Map", .array (.reference "Pen | Map[]")), ("text", .scalar "{}")]
    (some (.array (.scalar "string"))) [("Map", .str "Map")]

/-- In `maps` the two names that the library declares are renamed, and nothing else is. -/
theorem atlas_qualify_renames :
    (∀ t ∈ atlas.references, '\x7b' ∉ t.toList ∧ '<' ∉ t.toList) ∧
      (maps.qualify atlas).mentions =
        ["lib-2.x.Map", "lib-2.x.lib.Map", "Map) | (Pen", "Pen", "lib-2.x.Map"] ∧
      (maps.qualify atlas).tokens =
        atlas.tokens.map (Token.rename ⟨"lib-2.x", ["Map", "lib.Map", "string"]⟩) := by
  have hplain : ∀ t ∈ atlas.references, '\x7b' ∉ t.toList ∧ '<' ∉ t.toList := by decide
  have hworded : Scope.IsWorded ⟨"lib-2.x", maps.types⟩ := by decide
  have hmentions : atlas.mentions = ["Map", "lib.Map", "Map) | (Pen", "Pen", "Map"] := by
    decide +kernel
  obtain ⟨hnames, htokens⟩ := qualify_renames rfl hworded hplain
  refine ⟨hplain, ?_, htokens⟩
  rw [hnames, hmentions]
  decide

/-- No declared name is left among renamed ones. -/
theorem not_mem_map_rename {sc : Scope} (hsc : sc.IsProper) {n : String} (hn : n ∈ sc.declared)
    (names : List String) : n ∉ names.map sc.rename := by
  intro hmem
  obtain ⟨m, -, hm⟩ := List.mem_map.mp hmem
  rw [Scope.rename] at hm
  split at hm
  · exact (hsc.declared n hn).2 (hm ▸ by simp)
  · rename_i hbare
    exact hbare (List.contains_iff_mem.mpr (hm ▸ hn))

/-! ## What opens a text -/

/-- Whether the first character of a text that is no blank opens a schema, if there is one. -/
def opening (cs : List Char) : Option Bool :=
  (dropStart isBlank cs).head?.map fun c => c == '\x7b' || c == '<'

theorem opening_append (xs ys : List Char) : opening (xs ++ ys) = (opening xs).or (opening ys) := by
  by_cases hxs : dropStart isBlank xs = []
  · rw [opening, opening, Text.dropStart_append (Text.dropStart_eq_nil.mp hxs), hxs]
    rfl
  · obtain ⟨c, rest, hrest⟩ := List.exists_cons_of_ne_nil hxs
    rw [opening, opening, Text.head?_dropStart_append hxs, hrest]
    rfl

theorem isSchema_eq_opening (cs : List Char) : isSchema cs = (opening cs == some true) := by
  rw [Bool.eq_iff_iff, isSchema_iff, opening]
  cases (dropStart isBlank cs).head? <;> simp

theorem IsWord.opening {s : String} (h : IsWord s) : Shape.opening s.toList = some false := by
  obtain ⟨c, cs, hcs⟩ := List.exists_cons_of_ne_nil (fun hnil => h.ne_empty
    (String.toList_inj.mp hnil))
  have hschema := h.isSchema
  rw [isSchema_eq_opening] at hschema
  rw [Shape.opening, hcs, Text.dropStart_of_head (h.isBlank_eq (hcs ▸ List.mem_cons_self ..))]
    at hschema ⊢
  simpa using hschema

theorem opening_joined_congr {f g : List Char → List Char} {ps : List (List Char)}
    (h : ∀ p ∈ ps, opening (f p) = opening (g p)) :
    opening (joined (ps.map f)) = opening (joined (ps.map g)) := by
  cases ps with
  | nil => rfl
  | cons p ps =>
    rw [List.forall_mem_cons] at h
    by_cases hps : ps = []
    · subst hps
      simpa [joined] using h.1
    · -- a bar opens no schema, whatever comes after it
      rw [List.map_cons, List.map_cons, joined_cons (by simpa using hps),
        joined_cons (by simpa using hps)]
      simp only [opening_append, h.1]
      rfl

section Opening

variable {sc sc' : Scope}

/-- What a qualified shape begins with shows in its references. -/
theorem opening_of_references (hsc : sc.IsWorded) (hsc' : sc'.IsWorded) : ∀ s : Shape,
    (∀ t ∈ s.references,
      opening (sc.referenceText t).toList = opening (sc'.referenceText t).toList) →
    opening (s.qualify sc).render.toList = opening (s.qualify sc').render.toList
  | .scalar _, _ => rfl
  | .reference name, h => by
      rw [qualify, qualify, Scope.reference_eq, Scope.reference_eq]
      exact h name (List.mem_singleton_self _)
  | .array element, h => by
      have hinner := opening_of_references hsc hsc' element h
      rw [qualify, qualify, toList_render_array, toList_render_array, isUnion_qualify hsc.aliasName,
        isUnion_qualify hsc'.aliasName]
      split
      · rfl
      · rw [opening_append, opening_append, hinner]
  | .inline (some type) properties items facets, h => by
      simp only [references, List.forall_mem_append] at h
      exact opening_of_references hsc hsc' type h.1.1
  | .inline none properties items facets, _ => by
      cases properties <;> rfl

theorem opening_rename (hsc : sc.IsWorded) (name : String) :
    opening (sc.rename name).toList = opening name.toList := by
  rw [Scope.rename]
  split
  · rename_i hdeclared
    have hmem := List.contains_iff_mem.mp hdeclared
    rw [(isWord_rename hsc hmem).opening, (hsc.declared name hmem).opening]
  · rfl

theorem opening_referenceText (hsc : sc.IsWorded) (hsc' : sc'.IsWorded) (name : String) :
    opening (sc.referenceText name).toList = opening (sc'.referenceText name).toList := by
  induction name using reference_induction with
  | step name ih =>
    by_cases hunion : hasUnion name.toList = true
    · rw [Scope.toList_referenceText hunion, Scope.toList_referenceText hunion]
      refine opening_joined_congr fun p hp => ?_
      rw [Scope.member, Scope.member, Scope.ofChars_eq, Scope.ofChars_eq]
      exact opening_of_references hsc hsc' _ (ih hunion _ (List.mem_map_of_mem hp))
    · rw [Scope.referenceText, Scope.referenceText, if_neg hunion, if_neg hunion,
        opening_rename hsc, opening_rename hsc']

/-- Whether a qualified shape reads like the text of a schema does not depend on the names that are
declared. -/
theorem isSchema_qualify (hsc : sc.IsWorded) (hsc' : sc'.IsWorded) (s : Shape) :
    isSchema (s.qualify sc).render.toList = isSchema (s.qualify sc').render.toList := by
  rw [isSchema_eq_opening, isSchema_eq_opening,
    opening_of_references hsc hsc' s fun t _ => opening_referenceText hsc hsc' t]

end Opening

end Shape
end Raml
