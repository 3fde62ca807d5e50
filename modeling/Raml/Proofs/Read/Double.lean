import Raml.Proofs.Read.Scalar
import Raml.Proofs.Text.Case

/-!
# Two readers of doubles

A double in a text is read in two ways: `Numeral.floating?` takes digits of every script and drops
the widest set of blanks, `doubleOfText?` takes plain figures alone and lets underscores stand
nearly everywhere. Where a text is written plainly (`IsPlain`) both read the same, and of other
texts none is read by both (`doubleOfText?_eq_iff`). Both come down to the bare grammar of
`plainFloating?`, in which only few characters come (`isNumeric`), so the proof asks of each
character where it can stand.
-/

namespace Raml.Numeral

open Text (dropAround isBlank isWhiteSpace)

/-! ## Characters of numbers -/

/-- The characters of numbers lie between the plus sign and the last small letter. -/
theorem toNat_of_isNumeric {c : Char} (h : isNumeric c = true) : 43 ≤ c.toNat ∧ c.toNat ≤ 122 := by
  rw [isNumeric, Bool.or_eq_true] at h
  rcases h with hfigure | hletter
  · simp only [isFigure, Bool.and_eq_true, decide_eq_true_eq] at hfigure
    have hlow : 48 ≤ c.toNat := hfigure.1
    have hhigh : c.toNat ≤ 57 := hfigure.2
    omega
  · have hrange : ∀ d ∈ "+-.einftya".toList, 43 ≤ d.toNat ∧ d.toNat ≤ 122 := by simp
    obtain ⟨hlow, hhigh⟩ := hrange _ (List.contains_iff_mem.mp hletter)
    rcases Text.toLower_cases c with hsame | ⟨_, _, hmoved⟩
    · rw [hsame] at hlow hhigh
      exact ⟨hlow, hhigh⟩
    · omega

theorem isBlank_of_isNumeric {c : Char} (h : isNumeric c = true) : isBlank c = false := by
  have := toNat_of_isNumeric h
  simp [isBlank, isWhiteSpace]
  omega

theorem isWhiteSpace_of_isNumeric {c : Char} (h : isNumeric c = true) : isWhiteSpace c = false := by
  by_contra hc
  have := Text.isBlank_of_isWhiteSpace (Bool.not_eq_false _ ▸ hc)
  rw [isBlank_of_isNumeric h] at this
  cases this

/-- The code points of white space. -/
def spaces : List Nat :=
  [0x09, 0x0a, 0x0b, 0x0c, 0x0d, 0x20, 0x85, 0xa0, 0x1680, 0x2000, 0x2001, 0x2002, 0x2003, 0x2004,
    0x2005, 0x2006, 0x2007, 0x2008, 0x2009, 0x200a, 0x2028, 0x2029, 0x202f, 0x205f, 0x3000]

theorem mem_spaces {c : Char} (h : isWhiteSpace c = true) : c.toNat ∈ spaces := by
  simp [isWhiteSpace] at h
  simp [spaces]
  omega

theorem exists_of_digitValue? {c : Char} (h : Text.Unicode.digitValue? c ≠ none) :
    ∃ r ∈ Text.Unicode.digitRanges, r.1 ≤ c.toNat ∧ c.toNat ≤ r.2 := by
  obtain ⟨d, hd⟩ := Option.ne_none_iff_exists'.mp h
  obtain ⟨r, hr, -⟩ := Option.map_eq_some_iff.mp hd
  have hin := List.find?_some hr
  simp only [Bool.and_eq_true, decide_eq_true_eq] at hin
  exact ⟨r, List.mem_of_find?_eq_some hr, hin⟩

/-- White space is no digit of any script. -/
theorem digitValue?_of_isWhiteSpace {c : Char} (h : isWhiteSpace c = true) :
    Text.Unicode.digitValue? c = none := by
  have happart : ∀ r ∈ Text.Unicode.digitRanges, ∀ n ∈ spaces, n < r.1 ∨ r.2 < n := by
    decide +kernel
  by_contra hdigit
  obtain ⟨r, hr, hin⟩ := exists_of_digitValue? hdigit
  have := happart r hr c.toNat (mem_spaces h)
  omega

/-- A digit that comes before the letters of other scripts is a figure. -/
theorem isFigure_of_digitValue? {c : Char} (h : Text.Unicode.digitValue? c ≠ none)
    (hc : c.toNat < 1632) : isFigure c = true := by
  have hranges : ∀ r ∈ Text.Unicode.digitRanges, r = (48, 57) ∨ 1632 ≤ r.1 := by decide +kernel
  obtain ⟨r, hr, hin⟩ := exists_of_digitValue? h
  rcases hranges r hr with rfl | hlate
  · simp only [isFigure, Bool.and_eq_true, decide_eq_true_eq]
    exact hin
  · omega

/-- A figure is the digit that it is. -/
theorem digitChar_of_isFigure {c : Char} {d : Nat} (h : isFigure c = true)
    (hd : Text.Unicode.digitValue? c = some d) : Nat.digitChar d = c := by
  have hfigures : ∀ n < 10, Text.Unicode.digitValue? (Char.ofNat (48 + n)) = some n ∧
      Nat.digitChar n = Char.ofNat (48 + n) := by decide +kernel
  simp only [isFigure, Bool.and_eq_true, decide_eq_true_eq] at h
  have hlow : 48 ≤ c.toNat := h.1
  have hhigh : c.toNat ≤ 57 := h.2
  obtain ⟨hvalue, hchar⟩ := hfigures (c.toNat - 48) (by omega)
  rw [Nat.add_sub_cancel' hlow, Char.ofNat_toNat] at hvalue hchar
  rw [Option.some.inj (hd.symm.trans hvalue), hchar]

/-- Where all digits are figures of ASCII, nothing is put in their place. -/
theorem figures_eq_self {cs : List Char}
    (h : ∀ c ∈ cs, Text.Unicode.digitValue? c ≠ none → isFigure c = true) : figures cs = cs := by
  refine (List.map_congr_left fun c hc => ?_).trans (List.map_id cs)
  split
  · rename_i d hd
    exact digitChar_of_isFigure (h c hc (by rw [hd]; nofun)) hd
  · rfl

/-! ## Underscores -/

/-- Whether each underscore stands between two figures; `inside` says whether there is a figure
before the text. -/
def PartsFigures (inside : Bool) (cs : List Char) : Prop :=
  ∀ before after, cs = before ++ '_' :: after →
    (before.getLast?.map isFigure).getD inside = true ∧ after.head?.any isFigure = true

section Underscores

variable {inside : Bool} {c : Char} {cs ds : List Char}

theorem partsFigures_of_notMem (h : '_' ∉ cs) : PartsFigures inside cs := by
  rintro before after rfl
  exact absurd (List.mem_append_right _ (List.mem_cons_self ..)) h

theorem getD_getLast?_cons (before : List Char) :
    ((c :: before).getLast?.map isFigure).getD inside =
      (before.getLast?.map isFigure).getD (isFigure c) := by
  rw [List.getLast?_cons]
  cases before.getLast? <;> rfl

theorem partsFigures_cons (hc : c ≠ '_') :
    PartsFigures inside (c :: cs) ↔ PartsFigures (isFigure c) cs := by
  constructor
  · intro h before after hcs
    have := h (c :: before) after (by rw [hcs]; rfl)
    rwa [getD_getLast?_cons] at this
  · intro h before after hcs
    cases before with
    | nil => exact absurd (List.cons.inj hcs).1 hc
    | cons d before =>
      obtain ⟨rfl, hrest⟩ := List.cons.inj hcs
      rw [getD_getLast?_cons]
      exact h before after hrest

theorem partsFigures_underscore : PartsFigures inside ('_' :: cs) ↔
    (inside = true ∧ cs.head?.any isFigure = true) ∧ PartsFigures false cs := by
  have hfigure : isFigure '_' = false := by decide
  constructor
  · intro h
    refine ⟨h [] cs rfl, fun before after hcs => ?_⟩
    have := h ('_' :: before) after (by rw [hcs]; rfl)
    rwa [getD_getLast?_cons, hfigure] at this
  · rintro ⟨hfirst, hrest⟩ before after hcs
    cases before with
    | nil =>
      obtain rfl := (List.cons.inj hcs).2
      exact hfirst
    | cons d before =>
      obtain ⟨rfl, hcs'⟩ := List.cons.inj hcs
      rw [getD_getLast?_cons, hfigure]
      exact hrest before after hcs'

/-- Underscores are taken out if each stands between figures. -/
theorem go_eq_some_iff : withoutUnderscores?.go isFigure inside cs = some ds ↔
    PartsFigures inside cs ∧ ds = cs.filter (· != '_') := by
  induction cs generalizing inside ds with
  | nil =>
    rw [withoutUnderscores?.go, Option.some.injEq, eq_comm, List.filter_nil]
    exact (and_iff_right (partsFigures_of_notMem List.not_mem_nil)).symm
  | cons c cs ih =>
    -- an underscore is left out, and stands between figures only
    by_cases hc : c = '_'
    · subst hc
      rw [partsFigures_underscore, List.filter_cons_of_neg (by decide), and_assoc, ← ih]
      rw [withoutUnderscores?.go.eq_def]
      cases cs with
      | nil => simp
      | cons d cs =>
        cases hinside : inside && isFigure d <;> simp_all
    · rw [partsFigures_cons hc, List.filter_cons_of_pos (by simpa using hc)]
      rw [withoutUnderscores?.go.eq_def]
      simp only [if_neg hc]
      rw [Option.map_eq_some_iff]
      constructor
      · rintro ⟨rest, hrest, rfl⟩
        obtain ⟨hparts, rfl⟩ := ih.mp hrest
        exact ⟨hparts, rfl⟩
      · rintro ⟨hparts, rfl⟩
        exact ⟨_, ih.mpr ⟨hparts, rfl⟩, rfl⟩

/-- Underscores are left out if each of them stands between two figures. -/
theorem withoutUnderscores?_eq_some_iff : withoutUnderscores? isFigure cs = some ds ↔
    PartsFigures false cs ∧ ds = cs.filter (· != '_') :=
  go_eq_some_iff

end Underscores

/-! ## Numbers in texts -/

/-- How a number is written that both readers read. -/
structure IsPlain (cs : List Char) : Prop where
  /-- Its digits are figures. -/
  figures : ∀ c ∈ cs, Text.Unicode.digitValue? c ≠ none → isFigure c = true
  /-- There are no separators of files, groups, records and units. -/
  blanks : ∀ c ∈ cs, isBlank c = isWhiteSpace c
  /-- Underscores part figures, and then no blanks stand around it. -/
  underscores : '_' ∈ cs → PartsFigures false cs ∧ ∀ c ∈ cs, isBlank c = false

section Plain

variable {s : String}

/-- No number is read with an underscore left in it. -/
theorem plainFloating?_of_underscore {cs : List Char} (h : '_' ∈ cs) : plainFloating? cs = none :=
  plainFloating?_eq_none h (by decide)

theorem mem_of_mem_bareNumber {c : Char} (h : c ∈ bareNumber s) : c ∈ s.toList := by
  obtain ⟨a, b, -, -, heq⟩ := Text.eq_append_dropAround isWhiteSpace s.toList
  rw [heq, ← bareNumber]
  exact List.mem_append_left _ (List.mem_append_right _ h)

/-- Without underscores a double is read from the bare text. -/
theorem doubleOfText?_of_notMem (h : '_' ∉ s.toList) :
    doubleOfText? s = (plainFloating? (bareNumber s)).map Floating.toFloat := by
  have hcontains : s.toList.contains '_' = false := by simpa using h
  rw [doubleOfText?]
  dsimp only
  rw [hcontains]
  cases plainFloating? (bareNumber s) with
  | some x => rfl
  | none => simp

/-- With underscores the text itself is no number, but it may be one without them. -/
theorem doubleOfText?_of_mem (h : '_' ∈ s.toList) : doubleOfText? s =
    if s.toList.head? = some '_' ∨ s.toList.getLast? = some '_' ∨ Text.contains "__" s = true
    then none else (plainFloating? (s.toList.filter (· != '_'))).map Floating.toFloat := by
  have hnone : plainFloating? (bareNumber s) = none :=
    plainFloating?_of_underscore (Text.mem_dropAround h (by decide))
  have hcontains : s.toList.contains '_' = true := List.contains_iff_mem.mpr h
  rw [doubleOfText?]
  dsimp only
  rw [hnone, Option.map_none, hcontains]
  simp [or_assoc]

/-- An underscore between two figures is neither the first nor the last character, and not next to
another one. -/
theorem PartsFigures.not_stray (h : PartsFigures false s.toList) :
    ¬(s.toList.head? = some '_' ∨ s.toList.getLast? = some '_' ∨ Text.contains "__" s = true) := by
  rintro (hhead | hlast | hdouble)
  · obtain ⟨rest, hrest⟩ := List.head?_eq_some_iff.mp hhead
    exact absurd (h [] rest hrest).1 Bool.false_ne_true
  · obtain ⟨init, hinit⟩ := List.getLast?_eq_some_iff.mp hlast
    exact absurd (h init [] hinit).2 Bool.false_ne_true
  · obtain ⟨before, after, hinfix⟩ := Text.contains_iff.mp hdouble
    have hnext := (h before ('_' :: after) (by rw [← hinfix]; simp)).2
    exact Bool.false_ne_true hnext

/-- Without blanks and with figures as digits, underscores decide whether the text is a number. -/
theorem floating?_of_not_isBlank (hfigures : figures s.toList = s.toList)
    (hblank : ∀ c ∈ s.toList, isBlank c = false) :
    floating? s = (withoutUnderscores? isFigure s.toList).bind plainFloating? := by
  have hbare : Text.IsBare isBlank s.toList :=
    ⟨fun c hc => hblank c (List.mem_of_mem_head? hc),
      fun c hc => hblank c (List.mem_of_mem_getLast? hc)⟩
  rw [floating?, Text.dropAround_of_isBare hbare, hfigures]

/-- A plain text is read as the same number in both ways. -/
theorem doubleOfText?_of_isPlain (h : IsPlain s.toList) :
    doubleOfText? s = (floating? s).map Floating.toFloat := by
  by_cases hunderscore : '_' ∈ s.toList
  · -- without the underscores both have the same characters left
    obtain ⟨hparts, hblank⟩ := h.underscores hunderscore
    have hwithout : withoutUnderscores? isFigure s.toList = some (s.toList.filter (· != '_')) :=
      withoutUnderscores?_eq_some_iff.mpr ⟨hparts, rfl⟩
    rw [floating?_of_not_isBlank (figures_eq_self h.figures) hblank, hwithout, Option.bind_some,
      doubleOfText?_of_mem hunderscore, if_neg hparts.not_stray]
  · have hbare : dropAround isBlank s.toList = bareNumber s := Text.dropAround_congr h.blanks
    have hmem : ∀ c ∈ bareNumber s, c ∈ s.toList := fun c hc => mem_of_mem_bareNumber hc
    have hfigures : figures (bareNumber s) = bareNumber s :=
      figures_eq_self fun c hc => h.figures c (hmem c hc)
    have hwithout : withoutUnderscores? isFigure (bareNumber s) = some (bareNumber s) := by
      have hnone : '_' ∉ bareNumber s := fun hc => hunderscore (hmem _ hc)
      refine withoutUnderscores?_eq_some_iff.mpr ⟨partsFigures_of_notMem hnone, ?_⟩
      exact (List.filter_eq_self.mpr fun c hc => by simpa using ne_of_mem_of_not_mem hc hnone).symm
    rw [doubleOfText?_of_notMem hunderscore, floating?, hbare, hfigures, hwithout,
      Option.bind_some]

/-- Every character of a plain number is one that numbers are written with. -/
theorem isNumeric_of_mem {cs : List Char} {x : Floating} {c : Char}
    (h : plainFloating? cs = some x) (hc : c ∈ cs) : isNumeric c = true := by
  by_contra hnot
  rw [plainFloating?_eq_none hc (Bool.not_eq_true _ ▸ hnot)] at h
  cases h

/-- What stands in a number that is read as figures: there are underscores or blanks in it, but not
both. -/
theorem of_doubleOfText? {y : Float} (h : doubleOfText? s = some y) :
    if '_' ∈ s.toList then ∀ c ∈ s.toList, isNumeric c = true ∨ c = '_'
    else ∀ c ∈ s.toList, isNumeric c = true ∨ isWhiteSpace c = true := by
  split
  · rename_i hunderscore
    rw [doubleOfText?_of_mem hunderscore] at h
    split at h
    · cases h
    · obtain ⟨x, hx, -⟩ := Option.map_eq_some_iff.mp h
      intro c hc
      by_cases hne : c = '_'
      · exact .inr hne
      · exact .inl (isNumeric_of_mem hx (List.mem_filter.mpr ⟨hc, by simpa using hne⟩))
  · rename_i hunderscore
    rw [doubleOfText?_of_notMem hunderscore] at h
    obtain ⟨x, hx, -⟩ := Option.map_eq_some_iff.mp h
    intro c hc
    cases hwhite : isWhiteSpace c with
    | true => exact .inr rfl
    | false => exact .inl (isNumeric_of_mem hx (Text.mem_dropAround hc hwhite))

theorem isFigure_of_numeric_or {c : Char}
    (h : (isNumeric c = true ∨ c = '_') ∨ isWhiteSpace c = true)
    (hdigit : Text.Unicode.digitValue? c ≠ none) : isFigure c = true := by
  refine isFigure_of_digitValue? hdigit ?_
  rcases h with (hnumeric | rfl) | hwhite
  · have := toNat_of_isNumeric hnumeric
    omega
  · decide
  · exact absurd (digitValue?_of_isWhiteSpace hwhite) hdigit

theorem isBlank_eq_of_numeric_or {c : Char}
    (h : (isNumeric c = true ∨ c = '_') ∨ isWhiteSpace c = true) : isBlank c = isWhiteSpace c := by
  rcases h with (hnumeric | rfl) | hwhite
  · rw [isBlank_of_isNumeric hnumeric, isWhiteSpace_of_isNumeric hnumeric]
  · decide
  · rw [hwhite, Text.isBlank_of_isWhiteSpace hwhite]

/-- Only plain texts are read as numbers in both ways. -/
theorem isPlain_of_some {x : Floating} {y : Float} (hx : floating? s = some x)
    (hy : doubleOfText? s = some y) : IsPlain s.toList := by
  have hstands := of_doubleOfText? hy
  have hnumeric : ∀ c ∈ s.toList, (isNumeric c = true ∨ c = '_') ∨ isWhiteSpace c = true := by
    intro c hc
    split at hstands
    · exact .inl (hstands c hc)
    · exact (hstands c hc).imp_left .inl
  have hfigures : ∀ c ∈ s.toList, Text.Unicode.digitValue? c ≠ none → isFigure c = true :=
    fun c hc => isFigure_of_numeric_or (hnumeric c hc)
  -- the figures and the blanks are told by the one reader, the underscores by the other
  refine ⟨hfigures, fun c hc => isBlank_eq_of_numeric_or (hnumeric c hc), fun hunderscore => ?_⟩
  rw [if_pos hunderscore] at hstands
  have hblank : ∀ c ∈ s.toList, isBlank c = false := by
    intro c hc
    rcases hstands c hc with hnumeric | rfl
    · exact isBlank_of_isNumeric hnumeric
    · decide
  -- without blanks nothing but underscores is left out by the other reader
  rw [floating?_of_not_isBlank (figures_eq_self hfigures) hblank] at hx
  obtain ⟨ds, hwithout, -⟩ := Option.bind_eq_some_iff.mp hx
  exact ⟨(withoutUnderscores?_eq_some_iff.mp hwithout).1, hblank⟩

/-- **When both readers agree on a text:** it is plain, or none of them reads it. -/
theorem doubleOfText?_eq_iff : doubleOfText? s = (floating? s).map Floating.toFloat ↔
    IsPlain s.toList ∨ floating? s = none ∧ doubleOfText? s = none := by
  constructor
  · intro h
    cases hx : floating? s with
    | none =>
      rw [hx] at h
      exact .inr ⟨rfl, h⟩
    | some x =>
      rw [hx] at h
      exact .inl (isPlain_of_some hx h)
  · rintro (hplain | ⟨hx, hy⟩)
    · exact doubleOfText?_of_isPlain hplain
    · rw [hx, hy]
      rfl

end Plain

end Raml.Numeral
