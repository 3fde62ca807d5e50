import Raml.Proofs.Text.Blank
import Raml.Read.Scalar

/-!
# Placeholders are no numbers

A number consists of few characters (`isNumeric`), and from a text with any other character in it
none is read (`plainFloating?_eq_none`). An angle bracket is such a character, so no number and no
truth value is read from a text with a placeholder. That is why a field that a template left open is
left open when what was written for it is read again (`readTemplated_toValue`).
-/

namespace Raml

/-! ## Characters that stay -/

theorem Text.mem_dropAround {p : Char → Bool} {cs : List Char} {c : Char} (h : c ∈ cs)
    (hp : p c = false) : c ∈ dropAround p cs := by
  obtain ⟨a, b, ha, hb, heq⟩ := eq_append_dropAround p cs
  rw [heq, List.mem_append, List.mem_append] at h
  rcases h with (h | h) | h
  · rw [ha c h] at hp
    cases hp
  · exact h
  · rw [hb c h] at hp
    cases hp

namespace Numeral

/-- The characters that come in a double: figures, signs, a point, and the letters of an exponent
and of the names. -/
def isNumeric (c : Char) : Bool := isFigure c || "+-.einftya".toList.contains c.toLower

/-- A letter stands for ten or more. -/
theorem digit?_eq_none {c : Char} (h : isFigure c = false) : digit? 10 c = none := by
  simp only [isFigure] at h
  rw [digit?, h, if_neg Bool.false_ne_true, Option.filter_eq_none_iff]
  intro n hn
  split at hn
  · obtain rfl := Option.some.inj hn
    simp
  · split at hn
    · obtain rfl := Option.some.inj hn
      simp
    · cases hn

section Numeric

variable {c : Char} {cs : List Char} (h : c ∈ cs) (hc : isNumeric c = false)

include h

/-- A character that is no digit keeps a text from being a number. -/
theorem natural?_eq_none {base : Nat} (hdigit : digit? base c = none) :
    natural? base cs = none := by
  have hfold : ∀ n, cs.foldlM (fun n c => (digit? base c).map (n * base + ·)) n = none := by
    induction cs with
    | nil => cases h
    | cons d cs ih =>
      intro n
      rw [List.foldlM_cons]
      rcases List.mem_cons.mp h with rfl | h
      · rw [hdigit]
        rfl
      · cases (digit? base d).map (n * base + ·) with
        | none => rfl
        | some m => exact ih h m
  rw [natural?]
  split
  · rfl
  · exact hfold 0

theorem mem_withoutUnderscores? {isPart : Char → Bool} {ds : List Char} (hne : c ≠ '_')
    (hds : withoutUnderscores? isPart cs = some ds) : c ∈ ds := by
  -- what is left out are underscores, and the character is none
  have hgo : ∀ inside ds, withoutUnderscores?.go isPart inside cs = some ds → c ∈ ds := by
    clear hds
    induction cs with
    | nil => cases h
    | cons d cs ih =>
      intro inside ds hds
      rw [withoutUnderscores?.go.eq_def] at hds
      dsimp only at hds
      split at hds
      · rename_i hd
        obtain h := (List.mem_cons.mp h).resolve_left (by rw [hd]; exact hne)
        split at hds
        · split at hds
          · exact ih h false ds hds
          · cases hds
        · cases hds
      · obtain ⟨rest, hrest, rfl⟩ := Option.map_eq_some_iff.mp hds
        rcases List.mem_cons.mp h with rfl | h
        · exact List.mem_cons_self ..
        · exact List.mem_cons_of_mem _ (ih h _ rest hrest)
  exact hgo false ds hds

include hc

theorem mem_sign : c ∈ (sign cs).2 := by
  rw [sign.eq_def]
  split
  · refine (List.mem_cons.mp h).resolve_left ?_
    rintro rfl
    cases hc
  · refine (List.mem_cons.mp h).resolve_left ?_
    rintro rfl
    cases hc
  · exact h

theorem natural?_ten_eq_none : natural? 10 cs = none := by
  rw [isNumeric, Bool.or_eq_false_iff] at hc
  exact natural?_eq_none h (digit?_eq_none hc.1)

theorem exponent?_eq_none : exponent? cs = none := by
  cases cs with
  | nil => cases h
  | cons d cs =>
    rw [exponent?]
    split
    · rename_i hd
      have hrest : c ∈ cs := by
        refine (List.mem_cons.mp h).resolve_left ?_
        rintro rfl
        rw [Bool.or_eq_true, decide_eq_true_eq, decide_eq_true_eq] at hd
        rcases hd with rfl | rfl <;> cases hc
      simp [natural?_ten_eq_none (mem_sign hrest hc) hc]
    · rfl

/-- What is no figure is not among the figures that a text begins with. -/
theorem mem_dropWhile_isFigure : c ∈ cs.dropWhile isFigure := by
  rw [← List.takeWhile_append_dropWhile (p := isFigure) (l := cs), List.mem_append] at h
  refine h.resolve_left fun hmem => ?_
  rw [isNumeric, List.mem_takeWhile_imp hmem] at hc
  cases hc

/-- A character that numbers are not written with keeps a text from being a size. -/
theorem size?_eq_none (negative : Bool) : size? negative cs = none := by
  have hrest := mem_dropWhile_isFigure h hc
  rw [size?]
  split
  rename_i fraction tail htail
  have hmem : c ∈ tail := by
    split at htail
    · rename_i r hr
      rw [hr] at hrest
      obtain ⟨-, rfl⟩ := Prod.mk.inj htail
      refine mem_dropWhile_isFigure ((List.mem_cons.mp hrest).resolve_left ?_) hc
      rintro rfl
      cases hc
    · obtain ⟨-, rfl⟩ := Prod.mk.inj htail
      exact hrest
  rw [exponent?_eq_none hmem hc]
  split
  · rename_i he
    cases he
  · rfl

/-- No double is read from a text with a character that does not come in one. -/
theorem plainFloating?_eq_none : plainFloating? cs = none := by
  have hsize := mem_sign h hc
  have hname : ∀ name : String, (∀ d ∈ name.toList, "+-.einftya".toList.contains d = true) →
      String.ofList ((sign cs).2.map Char.toLower) ≠ name := by
    rintro _ hletters rfl
    rw [String.toList_ofList] at hletters
    have := hletters c.toLower (List.mem_map.mpr ⟨c, hsize, rfl⟩)
    rw [isNumeric, this, Bool.or_true] at hc
    cases hc
  rw [plainFloating?]
  dsimp only
  rw [if_neg, if_neg (hname _ (by simp)), size?_eq_none hsize hc]
  rw [Bool.or_eq_true, decide_eq_true_eq, decide_eq_true_eq]
  exact fun hor => hor.elim (hname _ (by simp)) (hname _ (by simp))

end Numeric

end Numeral

open Numeral

/-! ## Numbers and truth values -/

theorem mem_bareNumber {s : String} (h : '<' ∈ s.toList) : '<' ∈ bareNumber s :=
  Text.mem_dropAround h (by decide)

theorem mem_withoutNoughts {cs : List Char} (h : '<' ∈ cs) : '<' ∈ withoutNoughts cs := by
  have hnothing : ∀ c : Char, c = '<' → (c == '0' || c == '_') = false := by
    rintro c rfl
    decide
  rw [withoutNoughts]
  split
  · split
    · rename_i hall
      rw [List.all_eq_true] at hall
      exact absurd (hall _ h) (by rw [hnothing _ rfl]; decide)
    · rw [← List.takeWhile_append_dropWhile (p := fun c => c == '0' || c == '_') (l := cs),
        List.mem_append] at h
      refine h.resolve_left fun hmem => ?_
      exact absurd (List.mem_takeWhile_imp hmem) (by decide)
  · exact h

/-- No text with an opening bracket says an integer. -/
theorem integerOfText?_eq_none {s : String} (h : '<' ∈ s.toList) : integerOfText? s = none := by
  have hsize := mem_sign (mem_bareNumber h) (by decide)
  have hdigits : ∀ whole : List Char, '<' ∈ whole → ∀ negative digits,
      joinedDigits (if negative = true then whole else withoutNoughts whole) = some digits →
      ¬digits.all isFigure = true := by
    intro whole hmem negative digits hjoined hall
    rw [List.all_eq_true] at hall
    refine absurd (hall '<' (mem_withoutUnderscores? ?_ (by decide) hjoined)) (by decide)
    split
    · exact hmem
    · exact mem_withoutNoughts hmem
  rw [integerOfText?]
  dsimp only
  split
  · rw [Option.bind_eq_bind, Option.bind_some, Option.bind_eq_bind, Option.bind_eq_none_iff]
    exact fun digits hjoined => if_neg (hdigits _ hsize _ digits hjoined)
  · rename_i whole fraction hcut
    split
    · rename_i hzeros
      -- the fraction is all noughts, so the bracket stands before the point
      rw [Text.cut?_eq_some hcut, List.append_assoc, List.mem_append] at hsize
      have hmem : '<' ∈ whole := by
        refine hsize.resolve_right fun hmem => ?_
        rw [List.all_eq_true] at hzeros
        rcases List.mem_append.mp hmem with hmem | hmem
        · exact absurd hmem (by decide)
        · exact absurd (hzeros _ hmem) (by decide)
      rw [Option.bind_eq_bind, Option.bind_some, Option.bind_eq_bind, Option.bind_eq_none_iff]
      exact fun digits hjoined => if_neg (hdigits _ hmem _ digits hjoined)
    · rfl

/-- No text with an opening bracket says a double. -/
theorem doubleOfText?_eq_none {s : String} (h : '<' ∈ s.toList) : doubleOfText? s = none := by
  have hfilter : '<' ∈ s.toList.filter (· != '_') := List.mem_filter.mpr ⟨h, by decide⟩
  rw [doubleOfText?]
  dsimp only
  rw [plainFloating?_eq_none (mem_bareNumber h) (by decide),
    plainFloating?_eq_none hfilter (by decide)]
  dsimp only [Option.map_none]
  split <;> rfl

/-- No text with an opening bracket says a truth value. -/
theorem truthOfText?_eq_none {s : String} (h : '<' ∈ s.toList) : truthOfText? s = none := by
  have hword : ∀ words : List String, (∀ w ∈ words, '<' ∉ w.toList) →
      ¬words.contains (String.ofList (s.toList.map Char.toLower)) = true := by
    intro words hwords hcontains
    rw [List.contains_iff_mem] at hcontains
    refine hwords _ hcontains ?_
    rw [String.toList_ofList]
    exact List.mem_map.mpr ⟨'<', h, by decide⟩
  rw [truthOfText?]
  rw [if_neg (hword _ (by decide)), if_neg (hword _ (by decide))]

/-! ## Fields that a template may leave open -/

theorem Template.mem_of_hasPlaceholder {s : String} (h : hasPlaceholder s = true) :
    '<' ∈ s.toList := by
  rw [hasPlaceholder, List.any_eq_true] at h
  obtain ⟨segment, hsegment, hhole⟩ := h
  cases segment with
  | char c => cases hhole
  | hole inner =>
    rw [← ofSegments_segments s.toList]
    exact List.mem_flatMap.mpr ⟨_, hsegment, List.mem_cons_self ..⟩

/-- What is asked of a kind: what is written for a value says that value and is not null, and no
value is said by a text with an angle bracket. -/
structure Kind.IsWritten {α : Type} (k : Kind α) : Prop where
  read_write : ∀ a, k.read (k.write a) = .ok a
  write_ne_null : ∀ a, k.write a ≠ .null
  read_str : ∀ s : String, '<' ∈ s.toList → ∃ m, k.read (.str s) = .error m

theorem Kind.isWritten_integer : Kind.integer.IsWritten where
  read_write _ := rfl
  write_ne_null _ := nofun
  read_str s h := ⟨.integerText, by
    change readInteger.ofText s = _
    rw [readInteger.ofText, integerOfText?_eq_none h]⟩

theorem Kind.isWritten_double : Kind.double.IsWritten where
  read_write _ := rfl
  write_ne_null _ := nofun
  read_str s h := ⟨.numberText, by
    change readDouble.ofText s = _
    rw [readDouble.ofText, doubleOfText?_eq_none h]⟩

theorem Kind.isWritten_truth : Kind.truth.IsWritten where
  read_write _ := rfl
  write_ne_null _ := nofun
  read_str s h := ⟨.truthText, by
    change readTruth.ofText s = _
    rw [readTruth.ofText, truthOfText?_eq_none h]⟩

/-- What was read where a template may leave a field open is read from what is written for it. -/
theorem Kind.readTemplated_toValue {α : Type} {k : Kind α} (hk : k.IsWritten) {v : Value}
    {t : Templated α} (h : k.readTemplated v = .ok t) : k.readTemplated (t.toValue k) = .ok t := by
  rw [readTemplated] at h
  split at h
  · obtain rfl := Except.ok.inj h
    rw [Templated.toValue, readTemplated, hk.read_write]
  · split at h
    · rename_i s hbrackets hs
      obtain rfl := Except.ok.inj h
      -- a placeholder is only read of a text that has one
      have hplaceholder : Template.hasPlaceholder s = true := by
        cases htext : readText v with
        | error n =>
          rw [readPlaceholder, htext] at hs
          cases hs
        | ok u =>
          rw [readPlaceholder, htext] at hs
          change (if h : Template.hasPlaceholder u = true then _ else _) = _ at hs
          split at hs
          · rename_i hu
            cases hs
            exact hu
          · cases hs
      -- a text with a placeholder is read as none of the kind's values
      obtain ⟨m, hm⟩ := hk.read_str s (Template.mem_of_hasPlaceholder hplaceholder)
      have hread : readPlaceholder (.str s) = .ok ⟨s, hbrackets⟩ := by
        change (if h : Template.hasPlaceholder s = true then _ else _) = _
        rw [dif_pos hplaceholder]
      rw [Templated.toValue, readTemplated, hm, hread]
    · cases h

end Raml
