import Raml.Proofs.Shape.Expression
import Raml.Shape.Qualify

/-!
# Cutting unions and joining members

A union is cut at the bars outside parentheses. `IsCut` says of stretches of text that they are what
a text is cut into: none of them has such a bar itself, and the parentheses of each but the last
come back to the depth at which they began. Members that are rewritten with the depth kept, and
joined by bars again, make a union of their own members (`memberChars_joined`): a member may
become a union itself, and then its members stand for it.
-/

namespace Raml.Shape.Expression

open Text (isBlank dropAround)

variable {cs : List Char} {ps : List (List Char)}

/-! ## Depth -/

theorem depthAfter_append (depth : Int) (xs ys : List Char) :
    depthAfter depth (xs ++ ys) = depthAfter (depthAfter depth xs) ys :=
  List.foldl_append

/-- A bar changes no depth. -/
theorem depthAfter_bar (depth : Int) (xs ys : List Char) :
    depthAfter depth (xs ++ '|' :: ys) = depthAfter (depthAfter depth xs) ys := by
  rw [depthAfter_append]
  rfl

theorem staysOpen_bar (depth : Int) (xs ys : List Char) : staysOpen depth (xs ++ '|' :: ys) =
    (staysOpen depth xs && staysOpen (depthAfter depth xs) ys) := by
  rw [staysOpen_append]
  rfl

theorem neutral_of_blanks {b : List Char} (h : IsBlanks b) : ∀ c ∈ b, isNeutral c = true :=
  fun c hc => isNeutral_of_isBlank (h c hc)

/-- Neutral characters close nothing. -/
theorem staysOpen_of_neutral {b : List Char} (h : ∀ c ∈ b, isNeutral c = true) (depth : Int) :
    staysOpen depth b = true := by
  induction b generalizing depth with
  | nil => rfl
  | cons c b ih =>
    rw [List.forall_mem_cons] at h
    have hclose : c ≠ ')' := by
      rintro rfl
      exact absurd h.1 (by decide)
    rw [staysOpen, ih h.2]
    simp [hclose]

/-- Blanks around a text do not matter for its depth. -/
theorem depthAfter_dropAround (depth : Int) (cs : List Char) :
    depthAfter depth (dropAround isBlank cs) = depthAfter depth cs := by
  obtain ⟨a, b, ha, hb, hcs⟩ := Text.eq_append_dropAround isBlank cs
  rw [congrArg (depthAfter depth) hcs, depthAfter_append, depthAfter_append,
    depthAfter_of_neutral (neutral_of_blanks ha), depthAfter_of_neutral (neutral_of_blanks hb)]

theorem staysOpen_dropAround (depth : Int) (cs : List Char) :
    staysOpen depth (dropAround isBlank cs) = staysOpen depth cs := by
  obtain ⟨a, b, ha, hb, hcs⟩ := Text.eq_append_dropAround isBlank cs
  have ha' := neutral_of_blanks ha
  rw [congrArg (staysOpen depth) hcs, staysOpen_append, staysOpen_append,
    staysOpen_of_neutral ha', staysOpen_of_neutral (neutral_of_blanks hb),
    depthAfter_of_neutral ha', Bool.true_and, Bool.and_true]

/-! ## Cutting -/

/-- Texts that another one is cut into at its bars at depth nought. -/
inductive IsCut : List (List Char) → List Char → Prop where
  | last {p : List Char} : hasUnion p = false → IsCut [p] p
  | bar {p cs : List Char} {ps : List (List Char)} :
      hasUnion p = false → depthAfter 0 p = 0 → IsCut ps cs → IsCut (p :: ps) (p ++ '|' :: cs)

/-- A bar outside of parentheses ends a stretch. -/
theorem stretchesFrom_bar (cs : List Char) :
    stretchesFrom 0 ('|' :: cs) = [] :: stretchesFrom 0 cs :=
  rfl

/-- Any other character belongs to the first stretch. -/
theorem stretchesFrom_cons {depth : Int} {c : Char} (h : isBar depth c = false) (cs : List Char) :
    stretchesFrom depth (c :: cs) =
      (stretchesFrom (deeper depth c) cs).modifyHead (c :: ·) := by
  rw [stretchesFrom, if_neg (by simp [h])]
  cases hs : stretchesFrom (deeper depth c) cs with
  | nil => exact absurd hs (stretchesFrom_ne_nil _ _)
  | cons p ps => rfl

theorem eq_of_isBar {depth : Int} {c : Char} (h : isBar depth c = true) : c = '|' ∧ depth = 0 := by
  simpa [isBar] using h

theorem isCut_from (cs : List Char) {x : List Char} (hx : hasUnion x = false) :
    IsCut ((stretchesFrom (depthAfter 0 x) cs).modifyHead (x ++ ·)) (x ++ cs) := by
  -- `x` is the stretch so far: a bar that counts ends it, any other character is added to it
  induction cs generalizing x with
  | nil =>
    rw [List.append_nil]
    change IsCut [x ++ []] x
    rw [List.append_nil]
    exact .last hx
  | cons c cs ih =>
    cases hbar : isBar (depthAfter 0 x) c with
    | true =>
      obtain ⟨rfl, hdepth⟩ := eq_of_isBar hbar
      have hrest := ih (x := []) rfl
      rw [hdepth, stretchesFrom_bar, List.modifyHead_cons, List.append_nil]
      refine .bar hx hdepth ?_
      cases hs : stretchesFrom 0 cs with
      | nil => exact absurd hs (stretchesFrom_ne_nil _ _)
      | cons p ps =>
        change IsCut ((stretchesFrom 0 cs).modifyHead ([] ++ ·)) ([] ++ cs) at hrest
        rwa [hs] at hrest
    | false =>
      have hx' : hasUnion (x ++ [c]) = false := by
        rw [hasUnion, hasUnionFrom_append, ← hasUnion, hx, hasUnionFrom, hbar]
        rfl
      have hnext := ih hx'
      rw [depthAfter_append] at hnext
      change IsCut ((stretchesFrom (deeper (depthAfter 0 x) c) cs).modifyHead (x ++ [c] ++ ·)) _
        at hnext
      rw [List.append_assoc, List.singleton_append] at hnext
      rw [stretchesFrom_cons hbar, List.modifyHead_modifyHead]
      have hfun : (x ++ ·) ∘ (c :: ·) = (x ++ [c] ++ ·) := by
        funext p
        simp
      rwa [hfun]

/-- The stretches between the bars of a text are what it is cut into. -/
theorem isCut_stretches (cs : List Char) : IsCut (stretchesFrom 0 cs) cs := by
  have h := isCut_from cs (x := []) rfl
  cases hs : stretchesFrom 0 cs with
  | nil => exact absurd hs (stretchesFrom_ne_nil _ _)
  | cons p ps =>
    change IsCut ((stretchesFrom 0 cs).modifyHead ([] ++ ·)) ([] ++ cs) at h
    rwa [hs] at h

theorem IsCut.ne_nil (h : IsCut ps cs) : ps ≠ [] := by
  cases h <;> exact List.cons_ne_nil _ _

/-- A bar at depth nought cuts a text, whatever stands before and after it. -/
theorem stretchesFrom_append (depth : Int) (xs ys : List Char) (h : depthAfter depth xs = 0) :
    stretchesFrom depth (xs ++ '|' :: ys) = stretchesFrom depth xs ++ stretchesFrom 0 ys := by
  induction xs generalizing depth with
  | nil =>
    obtain rfl : depth = 0 := h
    rfl
  | cons x xs ih =>
    cases hbar : isBar depth x with
    | true =>
      obtain ⟨rfl, rfl⟩ := eq_of_isBar hbar
      rw [List.cons_append, stretchesFrom_bar, stretchesFrom_bar, ih 0 h]
      rfl
    | false =>
      rw [List.cons_append, stretchesFrom_cons hbar, stretchesFrom_cons hbar, ih _ h]
      cases hs : stretchesFrom (deeper depth x) xs with
      | nil => exact absurd hs (stretchesFrom_ne_nil _ _)
      | cons p ps => rfl

/-! ## Members of what is joined -/

/-- Blanks at the start belong to the first stretch. -/
theorem stretchesFrom_blanks_left {a : List Char} (ha : IsBlanks a) (depth : Int) (cs : List Char) :
    stretchesFrom depth (a ++ cs) = (stretchesFrom depth cs).modifyHead (a ++ ·) := by
  induction a with
  | nil => exact (congrFun List.modifyHead_id _).symm
  | cons c a ih =>
    obtain ⟨hc, ha⟩ := List.forall_mem_cons.mp ha
    have hneutral := isNeutral_of_isBlank hc
    have hbar : isBar depth c = false := by
      rw [isBar]
      simp only [isNeutral, Bool.and_eq_true, bne_iff_ne, ne_eq] at hneutral
      simp [hneutral.2]
    rw [List.cons_append, stretchesFrom_cons hbar, deeper_of_isNeutral hneutral, ih ha,
      List.modifyHead_modifyHead]
    rfl

/-- Blanks at the end belong to the last stretch. -/
theorem stretchesFrom_blanks_right {b : List Char} (hb : IsBlanks b) (depth : Int)
    (cs : List Char) : ∃ init last, stretchesFrom depth cs = init ++ [last] ∧
      stretchesFrom depth (cs ++ b) = init ++ [last ++ b] := by
  -- the blanks are added to the last stretch, which moves away from the front at every bar
  induction cs generalizing depth with
  | nil =>
    refine ⟨[], [], rfl, ?_⟩
    have hleft := stretchesFrom_blanks_left hb depth []
    rw [List.append_nil] at hleft
    rw [List.nil_append, hleft, stretchesFrom, List.modifyHead_cons, List.append_nil]
    rfl
  | cons c cs ih =>
    cases hbar : isBar depth c with
    | true =>
      obtain ⟨rfl, rfl⟩ := eq_of_isBar hbar
      obtain ⟨init, last, hinit, hlast⟩ := ih 0
      refine ⟨[] :: init, last, ?_, ?_⟩
      · rw [stretchesFrom_bar, hinit, List.cons_append]
      · rw [List.cons_append, stretchesFrom_bar, hlast, List.cons_append]
    | false =>
      obtain ⟨init, last, hinit, hlast⟩ := ih (deeper depth c)
      rw [stretchesFrom_cons hbar, List.cons_append, stretchesFrom_cons hbar, hinit, hlast]
      cases init with
      | nil => exact ⟨[], c :: last, rfl, rfl⟩
      | cons p init => exact ⟨(c :: p) :: init, last, rfl, rfl⟩

/-- Blanks around a text do not matter for its members. -/
theorem memberChars_blanks {a b : List Char} (ha : IsBlanks a) (hb : IsBlanks b) (cs : List Char) :
    memberChars (a ++ cs ++ b) = memberChars cs := by
  have hnil : IsBlanks [] := List.forall_mem_nil _
  have hleft : ∀ p : List Char, dropAround isBlank (a ++ p) = dropAround isBlank p := by
    intro p
    have h := Text.dropAround_append ha hnil p
    rwa [List.append_nil] at h
  have hright : ∀ p : List Char, dropAround isBlank (p ++ b) = dropAround isBlank p :=
    fun p => Text.dropAround_append hnil hb p
  obtain ⟨init, last, hinit, hlast⟩ := stretchesFrom_blanks_right hb 0 (a ++ cs)
  have hmap : memberChars (a ++ cs ++ b) = memberChars (a ++ cs) := by
    rw [memberChars, memberChars, hinit, hlast, List.map_append, List.map_append,
      List.map_singleton, List.map_singleton, hright]
  rw [hmap, memberChars, memberChars, stretchesFrom_blanks_left ha]
  cases stretchesFrom 0 cs with
  | nil => rfl
  | cons p ps => rw [List.modifyHead_cons, List.map_cons, List.map_cons, hleft]

/-- Members with bars between them. -/
def joined (ms : List (List Char)) : List Char := [' ', '|', ' '].intercalate ms

theorem joined_cons {m : List Char} {ms : List (List Char)} (h : ms ≠ []) :
    joined (m :: ms) = m ++ [' '] ++ '|' :: (' ' :: joined ms) := by
  obtain ⟨m', ms, rfl⟩ := List.exists_cons_of_ne_nil h
  simp [joined, List.intercalate]

section Joined

variable {f : List Char → List Char}

/-- What members become: the depth after each is as before. -/
def KeepsDepth (f : List Char → List Char) (ps : List (List Char)) : Prop :=
  ∀ p ∈ ps, ∀ depth, depthAfter depth (f p) = depthAfter depth p

theorem blank_space : IsBlanks [' '] := List.forall_mem_singleton.mpr (by decide)

theorem depthAfter_space (depth : Int) (cs : List Char) :
    depthAfter depth (' ' :: cs) = depthAfter depth cs := rfl

/-- Members that end at the depth where they began may be exchanged without changing the depth after
them. -/
theorem depthAfter_joined (h : IsCut ps cs) (hf : KeepsDepth f ps) (depth : Int) :
    depthAfter depth (joined (ps.map f)) = depthAfter depth cs := by
  induction h generalizing depth with
  | last _ =>
    rw [List.map_singleton, joined, List.intercalate_singleton]
    exact hf _ (List.mem_singleton_self _) depth
  | bar _ _ hcut ih =>
    rw [KeepsDepth, List.forall_mem_cons] at hf
    rw [List.map_cons, joined_cons (by simpa using hcut.ne_nil), depthAfter_bar, depthAfter_bar,
      depthAfter_space, ih hf.2, depthAfter_append, hf.1]
    rfl

/-- Parentheses that stay open in a union do so when its members are rewritten, if they stay open in
each of them. -/
theorem staysOpen_joined (h : IsCut ps cs) (hf : KeepsDepth f ps)
    (hopen : ∀ p ∈ ps, ∀ depth, 1 ≤ depth → staysOpen depth p = true → staysOpen depth (f p) = true)
    {depth : Int} (hd : 1 ≤ depth) (hs : staysOpen depth cs = true) :
    staysOpen depth (joined (ps.map f)) = true := by
  induction h generalizing depth with
  | last _ =>
    rw [List.map_singleton, joined, List.intercalate_singleton]
    exact hopen _ (List.mem_singleton_self _) depth hd hs
  | @bar p cs ps _ _ hcut ih =>
    rw [KeepsDepth, List.forall_mem_cons] at hf
    rw [List.forall_mem_cons] at hopen
    rw [staysOpen_bar, Bool.and_eq_true] at hs
    have hrest := ih hf.2 hopen.2 (one_le_depthAfter hd hs.1) hs.2
    have hspace : staysOpen (depthAfter depth p) (' ' :: joined (ps.map f)) = true := by
      rw [staysOpen, Bool.and_eq_true]
      exact ⟨rfl, hrest⟩
    rw [List.map_cons, joined_cons (by simpa using hcut.ne_nil), staysOpen_bar, staysOpen_append,
      hopen.1 depth hd hs.1, depthAfter_append, hf.1]
    exact hspace

/-- The members of what is joined are those of the members. -/
theorem memberChars_joined (h : IsCut ps cs) (hf : KeepsDepth f ps) :
    memberChars (joined (ps.map f)) = ps.flatMap fun p => memberChars (f p) := by
  induction h with
  | last _ =>
    rw [List.map_singleton, joined, List.intercalate_singleton, List.flatMap_singleton]
  | @bar p cs ps _ hdepth hcut ih =>
    rw [KeepsDepth, List.forall_mem_cons] at hf
    have hnil : IsBlanks [] := List.forall_mem_nil _
    -- the bar that was put after the first member is at depth nought, so it cuts what is joined
    have hcuts : depthAfter 0 (f p ++ [' ']) = 0 := by
      rw [depthAfter_append, hf.1, hdepth]
      rfl
    have hfirst := memberChars_blanks hnil blank_space (f p)
    have hothers := memberChars_blanks blank_space hnil (joined (ps.map f))
    rw [List.nil_append] at hfirst
    rw [List.append_nil, List.singleton_append] at hothers
    rw [List.map_cons, joined_cons (by simpa using hcut.ne_nil), memberChars,
      stretchesFrom_append _ _ _ hcuts, List.map_append, ← memberChars, ← memberChars, hfirst,
      hothers, ih hf.2, List.flatMap_cons]

/-- What is joined of the members of a union is a union. -/
theorem hasUnion_joined (h : IsCut ps cs) (hf : KeepsDepth f ps) (hunion : hasUnion cs = true) :
    hasUnion (joined (ps.map f)) = true := by
  cases h with
  | last hnone =>
    rw [hunion] at hnone
    cases hnone
  | bar _ hdepth hcut =>
    rw [KeepsDepth, List.forall_mem_cons] at hf
    rw [List.map_cons, joined_cons (by simpa using hcut.ne_nil), hasUnion, hasUnionFrom_append,
      depthAfter_append, hf.1, hdepth]
    exact Bool.or_true _

end Joined

end Raml.Shape.Expression
