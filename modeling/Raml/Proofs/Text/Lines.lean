import Mathlib.Data.List.Infix
import Raml.Text.Piece

/-!
# Lines and what stands in them

A line holds no character that ends one, and what stands in a line stands in the text
(`of_mem_lines`). Texts of that kind, each ended by one newline, are the lines of what they make
together (`lines_join`).

A text that is looked for stands in one of two others if it stands in what they make with a
character between them that it does not hold (`infix_append_cons`). So what stands in none of the
lines stands nowhere in what they make (`infix_join`).
-/

namespace Raml.Text

/-! ## Looking for a text -/

section Infix

variable {sub : List Char}

theorem eq_nil_of_prefix_cons {c : Char} (hc : c ∉ sub) {cs : List Char} (h : sub <+: c :: cs) :
    sub = [] := by
  cases sub with
  | nil => rfl
  | cons d sub =>
    have hd : d = c := (List.cons_prefix_cons.mp h).1
    exact absurd (hd ▸ List.mem_cons_self ..) hc

theorem prefix_append_cons {c : Char} (hc : c ∉ sub) {xs ys : List Char} :
    sub <+: xs ++ c :: ys ↔ sub <+: xs := by
  refine ⟨fun h => ?_, fun h => h.trans (List.prefix_append ..)⟩
  induction xs generalizing sub with
  | nil => exact eq_nil_of_prefix_cons hc h ▸ List.nil_prefix
  | cons x xs ih =>
    cases sub with
    | nil => exact List.nil_prefix
    | cons d sub =>
      obtain ⟨hd, h⟩ := List.cons_prefix_cons.mp h
      exact List.cons_prefix_cons.mpr ⟨hd, ih (List.not_mem_of_not_mem_cons hc) h⟩

/-- What does not hold the character between two texts stands in one of them. -/
theorem infix_append_cons {c : Char} (hc : c ∉ sub) {xs ys : List Char} :
    sub <:+: xs ++ c :: ys ↔ sub <:+: xs ∨ sub <:+: ys := by
  constructor
  · induction xs with
    | nil =>
      intro h
      rcases List.infix_cons_iff.mp h with h | h
      · exact .inl (eq_nil_of_prefix_cons hc h ▸ List.nil_infix)
      · exact .inr h
    | cons x xs ih =>
      intro h
      rcases List.infix_cons_iff.mp h with h | h
      · have hprefix : sub <+: x :: xs := (prefix_append_cons hc).mp h
        exact .inl hprefix.isInfix
      · exact (ih h).imp_left fun h => h.trans (List.suffix_cons ..).isInfix
  · rintro (h | h)
    · exact h.trans (List.prefix_append ..).isInfix
    · exact h.trans ((List.suffix_cons ..).trans (List.suffix_append ..)).isInfix

/-- What is cut at does not stand before the cut. -/
theorem not_infix_of_cut? (hsub : sub ≠ []) {cs before after : List Char}
    (h : cut? sub cs = some (before, after)) : ¬sub <:+: before := by
  induction cs generalizing before after with
  | nil =>
    rw [cut?, if_neg (by simpa using hsub)] at h
    cases h
  | cons c cs ih =>
    have hwhole := cut?_eq_some h
    rw [cut?] at h
    split at h
    · obtain ⟨rfl, -⟩ := Prod.mk.inj (Option.some.inj h)
      simpa using hsub
    · rename_i hprefix
      obtain ⟨⟨b, a⟩, hcut, hpair⟩ := Option.map_eq_some_iff.mp h
      obtain ⟨rfl, rfl⟩ := Prod.mk.inj hpair
      rw [List.infix_cons_iff, not_or]
      refine ⟨fun hb => hprefix (List.isPrefixOf_iff_prefix.mpr ?_), ih hcut⟩
      rw [hwhole, List.append_assoc]
      exact hb.trans (List.prefix_append ..)

end Infix

/-! ## Into lines -/

/-- Whether a text holds no character that ends a line. -/
def IsLine (cs : List Char) : Prop := '\n' ∉ cs ∧ '\r' ∉ cs

instance (cs : List Char) : Decidable (IsLine cs) := inferInstanceAs (Decidable (_ ∧ _))

/-- A piece of a line is a line. -/
theorem IsLine.of_infix {sub cs : List Char} (h : IsLine cs) (hsub : sub <:+: cs) : IsLine sub :=
  ⟨fun hmem => h.1 (hsub.subset hmem), fun hmem => h.2 (hsub.subset hmem)⟩

theorem isLine_append {xs ys : List Char} : IsLine (xs ++ ys) ↔ IsLine xs ∧ IsLine ys := by
  simp only [IsLine, List.mem_append, not_or]
  grind

theorem unixBreaks_pair (cs : List Char) :
    unixBreaks ('\r' :: '\n' :: cs) = '\n' :: unixBreaks cs :=
  rfl

theorem unixBreaks_return {cs : List Char} (h : ∀ ds, cs = '\n' :: ds → False) :
    unixBreaks ('\r' :: cs) = '\n' :: unixBreaks cs :=
  unixBreaks.eq_2 cs h

theorem unixBreaks_cons {c : Char} (hc : c ≠ '\r') (cs : List Char) :
    unixBreaks (c :: cs) = c :: unixBreaks cs :=
  unixBreaks.eq_3 c cs (fun _ h => absurd h hc) hc

/-- No carriage return is left. -/
theorem return_notMem_unixBreaks (cs : List Char) : '\r' ∉ unixBreaks cs := by
  induction cs using unixBreaks.induct with
  | case1 cs ih =>
    rw [unixBreaks_pair]
    simpa using ih
  | case2 cs hnext ih =>
    rw [unixBreaks_return hnext]
    simpa using ih
  | case3 c cs _ hc ih =>
    rw [unixBreaks_cons hc]
    simpa [Ne.symm hc] using ih
  | case4 => exact List.not_mem_nil

/-- A text without carriage returns stays as it is. -/
theorem unixBreaks_of_notMem {cs : List Char} (h : '\r' ∉ cs) : unixBreaks cs = cs := by
  induction cs with
  | nil => rfl
  | cons c cs ih =>
    have hc : c ≠ '\r' := fun hc => h (hc ▸ List.mem_cons_self ..)
    rw [unixBreaks_cons hc, ih (List.not_mem_of_not_mem_cons h)]

/-- What holds no newline stands in a text where it stands once the line breaks are newlines. -/
theorem prefix_of_unixBreaks {sub cs : List Char} (hsub : '\n' ∉ sub) (h : sub <+: unixBreaks cs) :
    sub <+: cs := by
  induction cs using unixBreaks.induct generalizing sub with
  | case1 cs _ =>
    rw [unixBreaks_pair] at h
    exact eq_nil_of_prefix_cons hsub h ▸ List.nil_prefix
  | case2 cs hnext _ =>
    rw [unixBreaks_return hnext] at h
    exact eq_nil_of_prefix_cons hsub h ▸ List.nil_prefix
  | case3 c cs _ hc ih =>
    rw [unixBreaks_cons hc] at h
    cases sub with
    | nil => exact List.nil_prefix
    | cons d sub =>
      obtain ⟨hd, h⟩ := List.cons_prefix_cons.mp h
      exact List.cons_prefix_cons.mpr ⟨hd, ih (List.not_mem_of_not_mem_cons hsub) h⟩
  | case4 => exact h

/-- A piece without newlines that stands in the unified text stood in the text. -/
theorem infix_of_unixBreaks {sub cs : List Char} (hsub : '\n' ∉ sub) (h : sub <:+: unixBreaks cs) :
    sub <:+: cs := by
  induction cs using unixBreaks.induct with
  | case1 cs ih =>
    rw [unixBreaks_pair] at h
    rcases List.infix_cons_iff.mp h with h | h
    · exact eq_nil_of_prefix_cons hsub h ▸ List.nil_infix
    · exact (ih h).trans ((List.suffix_cons ..).trans (List.suffix_cons ..)).isInfix
  | case2 cs hnext ih =>
    rw [unixBreaks_return hnext] at h
    rcases List.infix_cons_iff.mp h with h | h
    · exact eq_nil_of_prefix_cons hsub h ▸ List.nil_infix
    · exact (ih h).trans (List.suffix_cons ..).isInfix
  | case3 c cs _ hc ih =>
    have hwhole : sub <+: unixBreaks (c :: cs) → sub <+: c :: cs := prefix_of_unixBreaks hsub
    rw [unixBreaks_cons hc] at h hwhole
    rcases List.infix_cons_iff.mp h with h | h
    · exact (hwhole h).isInfix
    · exact (ih h).trans (List.suffix_cons ..).isInfix
  | case4 => exact h

theorem infix_join_of_mem {sep p : List Char} {ps : List (List Char)} (h : p ∈ ps) :
    p <:+: join sep ps := by
  induction ps with
  | nil => cases h
  | cons q ps ih =>
    cases ps with
    | nil => rw [List.mem_singleton.mp h, join]
    | cons r ps =>
      rw [join, List.append_assoc]
      rcases List.mem_cons.mp h with rfl | h
      · exact (List.prefix_append ..).isInfix
      · exact (ih h).trans ((List.suffix_append ..).trans (List.suffix_append ..)).isInfix

/-- No piece holds the separator. -/
theorem notMem_of_mem_split {sep : Char} {cs p : List Char} (h : p ∈ split sep cs) : sep ∉ p := by
  induction cs generalizing p with
  | nil =>
    rw [split, List.mem_singleton] at h
    rw [h]
    exact List.not_mem_nil
  | cons c cs ih =>
    rw [split] at h
    -- a separator ends a piece, and any other character goes into the first one
    split at h
    · rcases List.mem_cons.mp h with rfl | h
      · exact List.not_mem_nil
      · exact ih h
    · rename_i hc
      split at h
      · rw [List.mem_singleton.mp h]
        simpa using Ne.symm hc
      · rename_i q qs hsplit
        rw [hsplit] at ih
        rcases List.mem_cons.mp h with rfl | h
        · rw [List.mem_cons, not_or]
          exact ⟨Ne.symm hc, ih (List.mem_cons_self ..)⟩
        · exact ih (List.mem_cons_of_mem _ h)

theorem split_cons {sep c : Char} (hc : c ≠ sep) (cs : List Char) :
    split sep (c :: cs) = (split sep cs).modifyHead (c :: ·) := by
  rw [split, if_neg hc]
  cases hs : split sep cs with
  | nil => exact absurd hs (split_ne_nil sep cs)
  | cons p ps => rfl

/-- The pieces of two texts with the character between them are those of both. -/
theorem split_append (sep : Char) (xs ys : List Char) :
    split sep (xs ++ sep :: ys) = split sep xs ++ split sep ys := by
  induction xs with
  | nil =>
    rw [List.nil_append, split.eq_2, if_pos rfl]
    rfl
  | cons x xs ih =>
    by_cases hx : x = sep
    · rw [List.cons_append, split.eq_2, split.eq_2, if_pos hx, if_pos hx, ih, List.cons_append]
    · rw [List.cons_append, split_cons hx, split_cons hx, ih]
      cases hs : split sep xs with
      | nil => exact absurd hs (split_ne_nil sep xs)
      | cons p ps => rfl

/-- A text without the separator is in one piece. -/
theorem split_of_notMem {sep : Char} {p : List Char} (hp : sep ∉ p) : split sep p = [p] := by
  induction p with
  | nil => rfl
  | cons c p ih =>
    have hc : c ≠ sep := fun hc => hp (hc ▸ List.mem_cons_self ..)
    rw [split_cons hc, ih (List.not_mem_of_not_mem_cons hp)]
    rfl

/-- The first separator ends the first piece. -/
theorem split_append_cons {sep : Char} {p : List Char} (hp : sep ∉ p) (cs : List Char) :
    split sep (p ++ sep :: cs) = p :: split sep cs := by
  rw [split_append, split_of_notMem hp, List.singleton_append]

/-- Pieces that do not hold the character between them are the pieces of what they make. -/
theorem pieces_intercalate {sep : Char} {p : String} {ps : List String}
    (h : ∀ q ∈ p :: ps, sep ∉ q.toList) :
    pieces sep (String.intercalate (String.singleton sep) (p :: ps)) = p :: ps := by
  have hsplit : split sep (List.intercalate [sep] ((p :: ps).map String.toList)) =
      (p :: ps).map String.toList := by
    induction ps generalizing p with
    | nil =>
      rw [List.map_singleton, List.intercalate_singleton]
      exact split_of_notMem (h p (List.mem_singleton_self p))
    | cons q qs ih =>
      rw [List.forall_mem_cons] at h
      have hrest := ih h.2
      rw [List.map_cons] at hrest
      rw [List.map_cons, List.map_cons, List.intercalate_cons_cons, List.append_assoc,
        List.singleton_append, split_append_cons h.1, hrest]
  rw [pieces, String.toList_intercalate, String.toList_singleton, hsplit]
  simp

/-- A piece does not hold the character it was cut at, and stands in the text. -/
theorem of_mem_pieces {sep : Char} {s p : String} (h : p ∈ pieces sep s) :
    sep ∉ p.toList ∧ p.toList <:+: s.toList := by
  obtain ⟨cs, hcs, rfl⟩ := List.mem_map.mp h
  have hinside : cs <:+: join [sep] (split sep s.toList) := infix_join_of_mem hcs
  rw [join_split] at hinside
  rw [String.toList_ofList]
  exact ⟨notMem_of_mem_split hcs, hinside⟩

/-- A line holds no line break, and what stands in it stands in the text. -/
theorem of_mem_lines {s line : String} (h : line ∈ lines s) :
    IsLine line.toList ∧ line.toList <:+: s.toList := by
  have hpiece : ∃ p ∈ split '\n' (unixBreaks s.toList), String.ofList p = line := by
    rw [lines] at h
    obtain ⟨p, hp, hline⟩ := List.mem_map.mp h
    refine ⟨p, ?_, hline⟩
    split at hp
    · exact List.mem_of_mem_dropLast hp
    · exact hp
  obtain ⟨p, hp, rfl⟩ := hpiece
  have hnewline : '\n' ∉ p := notMem_of_mem_split hp
  have hinside : p <:+: unixBreaks s.toList := by
    have hjoin : p <:+: join ['\n'] (split '\n' (unixBreaks s.toList)) := infix_join_of_mem hp
    rwa [join_split] at hjoin
  rw [String.toList_ofList]
  exact ⟨⟨hnewline, fun hmem => return_notMem_unixBreaks _ (hinside.subset hmem)⟩,
    infix_of_unixBreaks hnewline hinside⟩

theorem toList_join (ls : List String) :
    (String.join (ls.map (· ++ "\n"))).toList = ls.flatMap fun l => l.toList ++ ['\n'] := by
  induction ls with
  | nil => rfl
  | cons l ls ih => simp [ih]

/-- Lines that are each ended by a newline are cut again at the newlines. -/
theorem split_join {ls : List String} (h : ∀ l ∈ ls, '\n' ∉ l.toList) :
    split '\n' (String.join (ls.map (· ++ "\n"))).toList = ls.map String.toList ++ [[]] := by
  rw [toList_join]
  induction ls with
  | nil => rfl
  | cons l ls ih =>
    rw [List.forall_mem_cons] at h
    rw [List.flatMap_cons, List.append_assoc, List.singleton_append, split_append_cons h.1,
      ih h.2, List.map_cons, List.cons_append]

/-- Lines that are each ended by a newline are the lines of the text that they make. -/
theorem lines_join {ls : List String} (h : ∀ l ∈ ls, IsLine l.toList) :
    lines (String.join (ls.map (· ++ "\n"))) = ls := by
  have hreturn : '\r' ∉ (String.join (ls.map (· ++ "\n"))).toList := by
    rw [toList_join, List.mem_flatMap]
    rintro ⟨l, hl, hmem⟩
    have hline := (h l hl).2
    simp [hline] at hmem
  rw [lines, unixBreaks_of_notMem hreturn, split_join fun l hl => (h l hl).1]
  simp

/-- What holds no newline stands in the text that lines make if it stands in one of them. -/
theorem infix_join {sub : List Char} (hsub : sub ≠ []) (hnewline : '\n' ∉ sub) {ls : List String} :
    sub <:+: (String.join (ls.map (· ++ "\n"))).toList ↔ ∃ l ∈ ls, sub <:+: l.toList := by
  rw [toList_join]
  induction ls with
  | nil => simpa using hsub
  | cons l ls ih =>
    rw [List.flatMap_cons, List.append_assoc, List.singleton_append, infix_append_cons hnewline, ih]
    simp

/-! ## With other line breaks -/

/-- Characters with another line break in the place of each newline. -/
def breakWith (brk : List Char) (cs : List Char) : List Char :=
  cs.flatMap fun c => if c = '\n' then brk else [c]

/-- Breaks are written character by character. -/
theorem breakWith_append (brk xs ys : List Char) :
    breakWith brk (xs ++ ys) = breakWith brk xs ++ breakWith brk ys :=
  List.flatMap_append

theorem breakWith_newline (brk cs : List Char) :
    breakWith brk ('\n' :: cs) = brk ++ breakWith brk cs := by
  rw [breakWith, List.flatMap_cons, if_pos rfl, breakWith]

theorem breakWith_cons {c : Char} (hc : c ≠ '\n') (brk cs : List Char) :
    breakWith brk (c :: cs) = c :: breakWith brk cs := by
  rw [breakWith, List.flatMap_cons, if_neg hc, List.singleton_append, breakWith]

/-- A text without newlines is left alone. -/
theorem breakWith_of_notMem {cs : List Char} (h : '\n' ∉ cs) (brk : List Char) :
    breakWith brk cs = cs := by
  induction cs with
  | nil => rfl
  | cons c cs ih =>
    have hc : c ≠ '\n' := fun hc => h (hc ▸ List.mem_cons_self ..)
    rw [breakWith_cons hc, ih (List.not_mem_of_not_mem_cons h)]

/-- Breaks that are written in two characters are unified to what they were. -/
theorem unixBreaks_breakWith {cs : List Char} (h : '\r' ∉ cs) :
    unixBreaks (breakWith ['\r', '\n'] cs) = cs := by
  induction cs with
  | nil => rfl
  | cons c cs ih =>
    have ih := ih (List.not_mem_of_not_mem_cons h)
    by_cases hnewline : c = '\n'
    · rw [hnewline, breakWith_newline, List.cons_append, List.singleton_append, unixBreaks_pair, ih]
    · have hreturn : c ≠ '\r' := fun hc => h (hc ▸ List.mem_cons_self ..)
      rw [breakWith_cons hnewline, unixBreaks_cons hreturn, ih]

/-- The text with another line break in the place of each newline. -/
def withBreaks (brk : List Char) (s : String) : String := String.ofList (breakWith brk s.toList)

/-- Carriage returns before the newlines change none of the lines. -/
theorem lines_withBreaks {s : String} (h : '\r' ∉ s.toList) :
    lines (withBreaks ['\r', '\n'] s) = lines s := by
  rw [lines, withBreaks, String.toList_ofList, unixBreaks_breakWith h, lines,
    unixBreaks_of_notMem h]

end Raml.Text
