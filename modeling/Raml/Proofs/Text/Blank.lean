import Mathlib.Data.List.TakeWhile
import Raml.Text.Blank

/-!
# What is left between blanks

A text is what `dropAround` leaves of it, between characters that were dropped; whatever is dropped
can be put back or left out without a change to what is left.
-/

namespace Raml.Text

variable {p : Char → Bool}

/-- Whether a text has no character to drop at either end. -/
def IsBare (p : Char → Bool) (cs : List Char) : Prop :=
  (∀ c ∈ cs.head?, p c = false) ∧ ∀ c ∈ cs.getLast?, p c = false

theorem dropStart_append {a : List Char} (ha : ∀ c ∈ a, p c = true) (cs : List Char) :
    dropStart p (a ++ cs) = dropStart p cs :=
  List.dropWhile_append_of_pos ha

/-- What comes after a text of which something is left stays. -/
theorem dropStart_append_of_ne_nil {cs : List Char} (h : dropStart p cs ≠ []) (b : List Char) :
    dropStart p (cs ++ b) = dropStart p cs ++ b := by
  rw [dropStart, List.dropWhile_append, if_neg (by simpa [dropStart] using h), dropStart]

theorem head?_dropStart_append {cs : List Char} (h : dropStart p cs ≠ []) (b : List Char) :
    (dropStart p (cs ++ b)).head? = (dropStart p cs).head? := by
  rw [dropStart_append_of_ne_nil h, List.head?_append, Option.or_of_isSome (by simpa using h)]

theorem dropEnd_append {b : List Char} (hb : ∀ c ∈ b, p c = true) (cs : List Char) :
    dropEnd p (cs ++ b) = dropEnd p cs := by
  rw [dropEnd, List.reverse_append, List.dropWhile_append_of_pos, dropEnd]
  simpa using hb

/-- Something is taken off the end, all of which satisfies what was asked. -/
theorem eq_dropEnd_append (p : Char → Bool) (cs : List Char) :
    ∃ b, (∀ c ∈ b, p c = true) ∧ cs = dropEnd p cs ++ b := by
  refine ⟨(cs.reverse.takeWhile p).reverse, fun c hc => ?_, ?_⟩
  · exact List.mem_takeWhile_imp (List.mem_reverse.mp hc)
  · rw [dropEnd, ← List.reverse_append, List.takeWhile_append_dropWhile, List.reverse_reverse]

/-- Nothing is left exactly if every character satisfies what was asked. -/
theorem dropStart_eq_nil {cs : List Char} : dropStart p cs = [] ↔ ∀ c ∈ cs, p c = true :=
  List.dropWhile_eq_nil_iff

theorem of_head?_dropStart {cs : List Char} {c : Char} (h : (dropStart p cs).head? = some c) :
    p c = false := by
  have hnot := List.head?_dropWhile_not p cs
  rw [← dropStart, h] at hnot
  exact hnot

/-- Characters around a text that satisfy what is asked do not matter. -/
theorem dropAround_append {a b : List Char} (ha : ∀ c ∈ a, p c = true) (hb : ∀ c ∈ b, p c = true)
    (cs : List Char) : dropAround p (a ++ cs ++ b) = dropAround p cs := by
  rw [dropAround, dropAround, List.append_assoc, dropStart_append ha]
  by_cases hcs : dropStart p cs = []
  · have hnone : dropStart p (cs ++ b) = [] := by
      rw [dropStart_eq_nil] at hcs ⊢
      exact fun c hc => (List.mem_append.mp hc).elim (hcs c) (hb c)
    rw [hnone, hcs]
  · rw [dropStart_append_of_ne_nil hcs, dropEnd_append hb]

/-- A text is what is left of it, between what is dropped. -/
theorem eq_append_dropAround (p : Char → Bool) (cs : List Char) :
    ∃ a b, (∀ c ∈ a, p c = true) ∧ (∀ c ∈ b, p c = true) ∧ cs = a ++ dropAround p cs ++ b := by
  refine ⟨cs.takeWhile p, ((dropStart p cs).reverse.takeWhile p).reverse, ?_, ?_, ?_⟩
  · exact fun c hc => List.mem_takeWhile_imp hc
  · intro c hc
    exact List.mem_takeWhile_imp (List.mem_reverse.mp hc)
  · rw [dropAround, dropEnd, List.append_assoc, ← List.reverse_append,
      List.takeWhile_append_dropWhile, List.reverse_reverse, dropStart,
      List.takeWhile_append_dropWhile]

/-- Nothing more can be dropped of what is left. -/
theorem isBare_dropAround (p : Char → Bool) (cs : List Char) : IsBare p (dropAround p cs) := by
  constructor
  · intro c hc
    obtain ⟨b, -, hstart⟩ := eq_dropEnd_append p (dropStart p cs)
    have hhead : (dropStart p cs).head? = some c := by
      rw [dropAround, Option.mem_def] at hc
      rw [hstart, List.head?_append, hc]
      rfl
    exact of_head?_dropStart hhead
  · intro c hc
    rw [dropAround, dropEnd, List.getLast?_reverse] at hc
    exact of_head?_dropStart hc

theorem dropAround_of_isBare {cs : List Char} (h : IsBare p cs) : dropAround p cs = cs := by
  have hstart : dropStart p cs = cs := by
    cases cs with
    | nil => rfl
    | cons c cs => exact dropStart_of_head (h.1 c rfl)
  rw [dropAround, hstart]
  rcases List.eq_nil_or_concat cs with rfl | ⟨init, c, rfl⟩
  · rfl
  · rw [List.concat_eq_append] at h ⊢
    exact dropEnd_of_last (h.2 c (by simp))

section Congr

variable {q : Char → Bool} {cs : List Char}

theorem dropStart_congr (h : ∀ c ∈ cs, p c = q c) : dropStart p cs = dropStart q cs := by
  induction cs with
  | nil => rfl
  | cons c cs ih =>
    obtain ⟨hc, hcs⟩ := List.forall_mem_cons.mp h
    rw [dropStart, dropStart, List.dropWhile_cons, List.dropWhile_cons, hc, ← dropStart,
      ← dropStart, ih hcs]

/-- Only what is asked of the characters of a text counts. -/
theorem dropAround_congr (h : ∀ c ∈ cs, p c = q c) : dropAround p cs = dropAround q cs := by
  have hend : dropStart p (dropStart q cs).reverse = dropStart q (dropStart q cs).reverse :=
    dropStart_congr fun c hc => h c ((List.dropWhile_suffix q).subset (List.mem_reverse.mp hc))
  rw [dropAround, dropAround, dropStart_congr h]
  exact congrArg List.reverse hend

end Congr

/-- Nothing is lost of a text that does not begin with a blank but the blanks that come after it. -/
theorem dropAround_append_iff {c : Char} (hc : p c = false) (cs b : List Char) :
    dropAround p (c :: cs ++ b) = dropAround p (c :: cs) ↔ ∀ x ∈ b, p x = true := by
  refine ⟨fun h => ?_, fun hb => dropAround_append (List.forall_mem_nil _) hb (c :: cs)⟩
  rw [dropAround, dropAround, List.cons_append, dropStart_of_head hc, dropStart_of_head hc,
    ← List.cons_append] at h
  -- both texts are what is left of them and then blanks, so what comes after the first is blank
  obtain ⟨x, hx, hlong⟩ := eq_dropEnd_append p (c :: cs ++ b)
  obtain ⟨y, -, hshort⟩ := eq_dropEnd_append p (c :: cs)
  rw [h] at hlong
  have hsame : dropEnd p (c :: cs) ++ (y ++ b) = dropEnd p (c :: cs) ++ x := by
    rw [← List.append_assoc, ← hshort, ← hlong]
  rw [← List.append_cancel_left hsame, List.forall_mem_append] at hx
  exact hx.2

end Raml.Text
