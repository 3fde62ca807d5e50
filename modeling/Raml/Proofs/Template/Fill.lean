import Mathlib.Data.List.TakeWhile
import Raml.Proofs.Outcome
import Raml.Template.Placeholder

/-!
# Filling in one text

A placeholder begins and ends with angle brackets, so text without any can be put before or after
another text and changes nothing about its placeholders: `segments_cons` and `segments_append` say
so for the cutting, `fill_between` for what comes out. Without values
nothing is filled in at all (`fill_empty`).
-/

namespace Raml.Template

/-- Whether a text has no angle bracket. -/
def NoAngle (cs : List Char) : Prop := '<' ∉ cs ∧ '>' ∉ cs

instance (cs : List Char) : Decidable (NoAngle cs) :=
  inferInstanceAs (Decidable ('<' ∉ cs ∧ '>' ∉ cs))

theorem noAngle_nil : NoAngle [] := ⟨List.not_mem_nil, List.not_mem_nil⟩

theorem noAngle_append {xs ys : List Char} : NoAngle (xs ++ ys) ↔ NoAngle xs ∧ NoAngle ys := by
  simp only [NoAngle, List.mem_append, not_or]
  exact and_and_and_comm

theorem noAngle_cons {c : Char} {cs : List Char} :
    NoAngle (c :: cs) ↔ (c ≠ '<' ∧ c ≠ '>') ∧ NoAngle cs := by
  simp only [NoAngle, List.mem_cons, not_or, ne_eq, eq_comm (a := c)]
  exact and_and_and_comm

/-- A part of a text without angle brackets has none either. -/
theorem NoAngle.sublist {xs ys : List Char} (h : NoAngle ys) (hsub : xs.Sublist ys) :
    NoAngle xs :=
  ⟨fun hmem => h.1 (hsub.subset hmem), fun hmem => h.2 (hsub.subset hmem)⟩

/-! ## Cutting -/

theorem segments_nil : segments [] = [] := by rw [segments]

theorem segments_char {c : Char} {rest : List Char} (h : ∀ r, c :: rest ≠ '<' :: '<' :: r) :
    segments (c :: rest) = .char c :: segments rest := by
  rw [segments.eq_def]
  split
  · contradiction
  · rename_i heq
    exact absurd heq (h _)
  · rename_i heq
    obtain ⟨rfl, rfl⟩ := List.cons.inj heq
    rfl

theorem segments_cons {c : Char} (hc : c ≠ '<') (cs : List Char) :
    segments (c :: cs) = .char c :: segments cs :=
  segments_char fun _ h => hc (List.cons.inj h).1

/-- A text before the first bracket is taken apart character by character. -/
theorem segments_append_left {xs : List Char} (hx : NoAngle xs) (cs : List Char) :
    segments (xs ++ cs) = xs.map Segment.char ++ segments cs := by
  induction xs with
  | nil => rfl
  | cons x xs ih =>
    obtain ⟨hc, hxs⟩ := noAngle_cons.mp hx
    rw [List.cons_append, segments_cons hc.1, ih hxs]
    rfl

/-- A text without angle brackets has no holes. -/
theorem segments_of_noAngle {cs : List Char} (h : NoAngle cs) :
    segments cs = cs.map Segment.char := by
  have hall := segments_append_left h []
  rwa [List.append_nil, segments_nil, List.append_nil] at hall

/-- The inside of a hole reaches to the first closing pair and is not empty. -/
theorem inner?_eq_some {cs inner after : List Char} :
    inner? cs = some (inner, after) ↔
      (inner ≠ [] ∧ ∀ c ∈ inner, isInner c = true) ∧ cs = inner ++ '>' :: '>' :: after := by
  constructor
  · intro h
    have hcs := eq_of_inner? h
    have hinner : inner ≠ [] ∧ inner = cs.takeWhile isInner := by
      unfold inner? at h
      split at h
      · simp only [Option.ite_none_left_eq_some, Option.some.injEq, Prod.mk.injEq] at h
        obtain ⟨hne, rfl, -⟩ := h
        exact ⟨by simpa using hne, rfl⟩
      · cases h
    refine ⟨⟨hinner.1, fun c hc => ?_⟩, hcs⟩
    rw [hinner.2] at hc
    exact List.mem_takeWhile_imp hc
  · rintro ⟨⟨hne, hall⟩, rfl⟩
    -- an end mark is no inner character
    have hstop : isInner '>' = false := by decide
    have htake : (inner ++ '>' :: '>' :: after).takeWhile isInner = inner := by
      rw [List.takeWhile_append_of_pos hall, List.takeWhile_cons_of_neg (by simp [hstop]),
        List.append_nil]
    have hdrop : (inner ++ '>' :: '>' :: after).dropWhile isInner = '>' :: '>' :: after := by
      rw [List.dropWhile_append_of_pos hall, List.dropWhile_cons_of_neg (by simp [hstop])]
    rw [inner?, hdrop, htake]
    simp [hne]

/-- What follows a text closes no placeholder in it, if it has no angle brackets. -/
theorem inner?_append {ys : List Char} (hy : NoAngle ys) (cs : List Char) :
    inner? (cs ++ ys) = (inner? cs).map fun p => (p.1, p.2 ++ ys) := by
  cases h : inner? cs with
  | some p =>
    obtain ⟨hinner, hcs⟩ := inner?_eq_some.mp h
    exact inner?_eq_some.mpr ⟨hinner, by simp [hcs]⟩
  | none =>
    cases h' : inner? (cs ++ ys) with
    | none => rfl
    | some p =>
      obtain ⟨hinner, hcs⟩ := inner?_eq_some.mp h'
      -- the brackets that close it are not in `ys`, so they were there before
      have hsplit : cs ++ ys = (p.1 ++ ['>', '>']) ++ p.2 := by simpa using hcs
      rcases List.append_eq_append_iff.mp hsplit with ⟨more, hmore, hys⟩ | ⟨more, hmore, -⟩
      · have hnil : more = [] := by
          by_contra hne
          have hlast : more.getLast hne = '>' := by
            have := congrArg List.getLast? hmore
            simpa [List.getLast?_append, List.getLast?_eq_some_getLast hne] using this.symm
          exact hy.2 (hys ▸ List.mem_append_left _ (hlast ▸ List.getLast_mem hne))
        subst hnil
        have hsome : inner? cs = some (p.1, []) :=
          inner?_eq_some.mpr ⟨hinner, by simpa using hmore.symm⟩
        rw [h] at hsome
        cases hsome
      · have hsome : inner? cs = some (p.1, more) :=
          inner?_eq_some.mpr ⟨hinner, by simpa using hmore⟩
        rw [h] at hsome
        cases hsome

theorem segments_of_inner? {rest inner after : List Char} (h : inner? rest = some (inner, after)) :
    segments ('<' :: '<' :: rest) = .hole inner :: segments after := by
  rw [segments.eq_def]
  simp only
  split
  · rename_i heq
    rw [h] at heq
    simp only [Option.some.injEq, Prod.mk.injEq] at heq
    rw [heq.1, heq.2]
  · rename_i heq
    rw [h] at heq
    cases heq

/-- A bracket that begins no hole is a character. -/
theorem segments_of_not_inner? {rest : List Char} (h : inner? rest = none) :
    segments ('<' :: '<' :: rest) = .char '<' :: segments ('<' :: rest) := by
  rw [segments.eq_def]
  simp only
  split
  · rename_i heq
    rw [h] at heq
    cases heq
  · rfl

/-- Text without angle brackets after another text is a row of characters. -/
theorem segments_append {ys : List Char} (hy : NoAngle ys) (cs : List Char) :
    segments (cs ++ ys) = segments cs ++ ys.map Segment.char := by
  -- along the cutting of the first text; the second one begins no hole and ends none
  fun_induction segments cs with
  | case1 => exact segments_of_noAngle hy
  | case2 rest inner after h _ ih =>
    have h' : inner? (rest ++ ys) = some (inner, after ++ ys) := by rw [inner?_append hy, h]; rfl
    rw [List.cons_append, List.cons_append, segments_of_inner? h', ih]
    rfl
  | case3 rest h ih =>
    have h' : inner? (rest ++ ys) = none := by rw [inner?_append hy, h]; rfl
    rw [List.cons_append, List.cons_append, segments_of_not_inner? h', ← List.cons_append, ih]
    rfl
  | case4 c rest hc ih =>
    have hc' : ∀ r, c :: (rest ++ ys) ≠ '<' :: '<' :: r := by
      intro r heq
      obtain ⟨rfl, hrest⟩ := List.cons.inj heq
      cases rest with
      | nil =>
        rw [List.nil_append] at hrest
        exact hy.1 (hrest ▸ List.mem_cons_self ..)
      | cons c' rest => exact hc rest rfl (by rw [(List.cons.inj hrest).1])
    rw [List.cons_append, segments_char hc', ih]
    rfl

/-! ## Where placeholders stand -/

/-- Whether a segment can stand in a text whose angle brackets all belong to placeholders. -/
def Segment.IsClean : Segment → Prop
  | .char c => isInner c = true
  | .hole inner => inner ≠ [] ∧ ∀ c ∈ inner, isInner c = true

theorem isClean_of_hole_mem {cs inner : List Char} (h : .hole inner ∈ segments cs) :
    (Segment.hole inner).IsClean := by
  fun_induction segments cs with
  | case1 => cases h
  | case2 rest inner' after hinner _ ih =>
    rcases List.mem_cons.mp h with heq | h
    · obtain rfl := Segment.hole.inj heq
      exact (inner?_eq_some.mp hinner).1
    · exact ih h
  | case3 rest _ ih =>
    rcases List.mem_cons.mp h with heq | h
    · cases heq
    · exact ih h
  | case4 c rest _ ih =>
    rcases List.mem_cons.mp h with heq | h
    · cases heq
    · exact ih h

/-- A segment stands in the text that it was taken from. -/
theorem source_infix_of_mem {segment : Segment} {cs : List Char} (h : segment ∈ segments cs) :
    segment.source <:+: cs := by
  obtain ⟨before, after, hs⟩ := List.append_of_mem h
  have hcs := ofSegments_segments cs
  rw [hs, List.flatMap_append, List.flatMap_cons, ← List.append_assoc] at hcs
  exact ⟨_, _, hcs⟩

/-- A text in which a placeholder can be read is not cut into characters alone. -/
theorem exists_hole_mem {inner cs : List Char} (hclean : (Segment.hole inner).IsClean)
    (h : (Segment.hole inner).source <:+: cs) : ∃ found, .hole found ∈ segments cs := by
  fun_induction segments cs with
  | case1 => simp [Segment.source] at h
  | case2 rest found after _ _ => exact ⟨found, List.mem_cons_self ..⟩
  | case3 rest hnone ih =>
    rw [List.infix_cons_iff] at h
    rcases h with ⟨after, hafter⟩ | h
    · -- it cannot be read here, where the cutting found none
      have hrest : rest = inner ++ '>' :: '>' :: after := by
        simpa [Segment.source] using hafter.symm
      rw [inner?_eq_some.mpr ⟨hclean, hrest⟩] at hnone
      cases hnone
    · obtain ⟨found, hfound⟩ := ih h
      exact ⟨found, List.mem_cons_of_mem _ hfound⟩
  | case4 c rest hc ih =>
    rw [List.infix_cons_iff] at h
    rcases h with ⟨after, hafter⟩ | h
    · -- nor does it begin here, where there are no two opening brackets
      obtain ⟨hopen, hrest⟩ := List.cons.inj hafter
      exact absurd hrest.symm (hc _ hopen.symm)
    · obtain ⟨found, hfound⟩ := ih h
      exact ⟨found, List.mem_cons_of_mem _ hfound⟩

/-- **A text holds a placeholder if one can be read anywhere in it**, wherever others begin. -/
theorem hasPlaceholder_iff {s : String} : hasPlaceholder s = true ↔
    ∃ inner, (Segment.hole inner).IsClean ∧ (Segment.hole inner).source <:+: s.toList := by
  rw [hasPlaceholder, List.any_eq_true]
  constructor
  · rintro ⟨segment, hsegment, hhole⟩
    cases segment with
    | char c => cases hhole
    | hole inner => exact ⟨inner, isClean_of_hole_mem hsegment, source_infix_of_mem hsegment⟩
  · rintro ⟨inner, hclean, hinner⟩
    obtain ⟨found, hfound⟩ := exists_hole_mem hclean hinner
    exact ⟨.hole found, hfound, rfl⟩

/-! ## Properties told by the segments -/

/-- A property of texts that holds of those without angle brackets and does not change when such
text is put around one. -/
structure IsLocal (C : String → Prop) : Prop where
  plain : ∀ t : String, NoAngle t.toList → C t
  between : ∀ before t after : String, NoAngle before.toList → NoAngle after.toList → C t →
    C (before ++ t ++ after)

/-- What holds of every segment is local if it holds of the characters that are no brackets. -/
theorem isLocal_of_segments {C : Segment → Prop} (hC : ∀ c, c ≠ '<' ∧ c ≠ '>' → C (.char c)) :
    IsLocal fun s => ∀ segment ∈ segments s.toList, C segment := by
  have hchars : ∀ cs, NoAngle cs → ∀ segment ∈ cs.map Segment.char, C segment := by
    intro cs hcs
    rw [List.forall_mem_map]
    refine fun c hc => hC c ⟨?_, ?_⟩
    · rintro rfl
      exact hcs.1 hc
    · rintro rfl
      exact hcs.2 hc
  constructor
  · intro t ht
    rw [segments_of_noAngle ht]
    exact hchars _ ht
  · intro before t after hbefore hafter ht
    rw [String.toList_append, String.toList_append, segments_append hafter,
      segments_append_left hbefore, List.forall_mem_append, List.forall_mem_append]
    exact ⟨⟨hchars _ hbefore, ht⟩, hchars _ hafter⟩

/-! ## Filling in -/

variable {d : Dictionary}

/-- The characters of a text with its placeholders filled in. -/
def fill (d : Dictionary) (cs : List Char) : Except Fault (List Char) := fillAll d (segments cs)

theorem instantiate_eq (s : String) :
    instantiate d s = (fill d s.toList).map String.ofList := rfl

/-- Segments are filled in one after the other. -/
theorem fillAll_append (xs ys : List Segment) :
    fillAll d (xs ++ ys) = do
      let here ← fillAll d xs
      let there ← fillAll d ys
      return here ++ there := by
  induction xs with
  | nil => cases h : fillAll d ys <;> simp [fillAll, h, bind, Except.bind, pure, Except.pure]
  | cons x xs ih =>
    rw [List.cons_append, fillAll, fillAll, ih]
    simp only [bind_assoc, pure_bind, List.append_assoc]

theorem fillAll_chars (cs : List Char) : fillAll d (cs.map Segment.char) = .ok cs := by
  induction cs with
  | nil => rfl
  | cons c cs ih =>
    rw [List.map_cons, fillAll, ih]
    rfl

theorem fill_of_noAngle {cs : List Char} (h : NoAngle cs) : fill d cs = .ok cs := by
  rw [fill, segments_of_noAngle h, fillAll_chars]

/-- A text without angle brackets stays as it is. -/
theorem instantiate_of_noAngle {s : String} (h : NoAngle s.toList) : instantiate d s = .ok s := by
  rw [instantiate_eq, fill_of_noAngle h]
  exact congrArg Except.ok (String.ofList_toList)

/-- What follows a text and has no angle brackets is not changed by filling. -/
theorem fill_append_right {ys : List Char} (hy : NoAngle ys) (cs : List Char) :
    fill d (cs ++ ys) = (fill d cs).map (· ++ ys) := by
  rw [fill, segments_append hy, fillAll_append, fillAll_chars, fill]
  cases fillAll d (segments cs) <;> rfl

/-- What comes before a text and has no angle brackets is not changed by filling. -/
theorem fill_append {xs : List Char} (hx : NoAngle xs) (cs : List Char) :
    fill d (xs ++ cs) = (fill d cs).map (xs ++ ·) := by
  rw [fill, segments_append_left hx, fillAll_append, fillAll_chars, fill]
  cases fillAll d (segments cs) <;> rfl

theorem fill_cons {c : Char} (hc : c ≠ '<') (cs : List Char) :
    fill d (c :: cs) = (fill d cs).map (c :: ·) := by
  rw [fill, segments_cons hc, fillAll, fill]
  cases fillAll d (segments cs) <;> rfl

/-- Text without angle brackets around another text stays as it is. -/
theorem fill_between {xs ys : List Char} (hx : NoAngle xs) (hy : NoAngle ys) (cs : List Char) :
    fill d (xs ++ cs ++ ys) = (fill d cs).map fun u => xs ++ u ++ ys := by
  rw [fill_append_right hy, fill_append hx]
  cases fill d cs <;> rfl

/-- Without values every placeholder stays. -/
theorem fill_empty (cs : List Char) : fill [] cs = .ok cs := by
  have hstays : ∀ s : Segment, s.fill [] = .ok s.source := by
    intro s
    cases s with
    | char c => rfl
    | hole inner =>
      rw [Segment.fill]
      split <;> rfl
  have hall : ∀ ss : List Segment, fillAll [] ss = .ok (ss.flatMap Segment.source) := by
    intro ss
    induction ss with
    | nil => rfl
    | cons s ss ih =>
      rw [fillAll, hstays, ih]
      rfl
  rw [fill, hall, ofSegments_segments]

/-- Without values nothing is filled in. -/
theorem instantiate_empty (s : String) : instantiate [] s = .ok s := by
  rw [instantiate_eq, fill_empty, Except.map, String.ofList_toList]

end Raml.Template
