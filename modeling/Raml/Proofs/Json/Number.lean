import Mathlib
import Raml.Decimal.Layout
import Raml.Json.Reader
import Raml.Proofs.Decimal.Shortest

/-!
# Numbers written and read

A number is written as figures, a fraction and an exponent, of which the last two may be missing.
The reader takes the same parts off again (`readNumber_parts`), as long as nothing follows that
would go on with the number. Each way in which a decimal is laid out consists of such parts, and
they have the size of the decimal (`isText_write`); it need not be the same decimal, for noughts may
move between the parts. Doubles that are no numbers have names, with which no number begins.
Together: a double is read as what it was (`readWord_ofFloat`).
-/

namespace Raml

namespace Numeral

/-! ## Figures -/

/-- Figures, and nothing else. -/
def AreFigures (cs : List Char) : Prop := ∀ c ∈ cs, isFigure c = true

/-- The number that figures stand for. -/
def valueOf (cs : List Char) : Nat := Nat.ofDigitChars 10 cs 0

theorem areFigures_append {cs ds : List Char} :
    AreFigures (cs ++ ds) ↔ AreFigures cs ∧ AreFigures ds :=
  List.forall_mem_append

theorem areFigures_replicate (n : Nat) : AreFigures (List.replicate n '0') := by
  intro c hc
  rw [List.eq_of_mem_replicate hc]
  rfl

theorem isFigure_iff {c : Char} : isFigure c = true ↔ 48 ≤ c.toNat ∧ c.toNat ≤ 57 := by
  simp only [isFigure, Bool.and_eq_true, decide_eq_true_eq]
  rfl

theorem digit?_of_isFigure {c : Char} (h : isFigure c = true) :
    digit? 10 c = some (c.toNat - '0'.toNat) := by
  have hlt : c.toNat - '0'.toNat < 10 := by
    have := isFigure_iff.mp h
    change c.toNat - 48 < 10
    omega
  simp only [isFigure] at h
  simp only [digit?, h, if_true, Option.filter_some, hlt, decide_true]

theorem foldlM_digit? {cs : List Char} (h : AreFigures cs) (n : Nat) :
    cs.foldlM (fun n c => (digit? 10 c).map (n * 10 + ·)) n = some (Nat.ofDigitChars 10 cs n) := by
  induction cs generalizing n with
  | nil => rfl
  | cons c cs ih =>
    rw [List.foldlM_cons, digit?_of_isFigure (h c List.mem_cons_self)]
    change List.foldlM _ (n * 10 + (c.toNat - '0'.toNat)) cs = _
    rw [ih (fun d hd => h d (List.mem_cons_of_mem _ hd)), Nat.mul_comm, Nat.ofDigitChars_cons]

/-- Figures are read as their value. -/
theorem natural?_of_areFigures {cs : List Char} (h : AreFigures cs) (hne : cs ≠ []) :
    natural? 10 cs = some (valueOf cs) := by
  rw [natural?, if_neg (by simpa using hne), foldlM_digit? h]
  rfl

/-- Figures to the left count for a power of ten more with each figure to their right. -/
theorem valueOf_append (cs ds : List Char) :
    valueOf (cs ++ ds) = 10 ^ ds.length * valueOf cs + valueOf ds := by
  rw [valueOf, Nat.ofDigitChars_append, Nat.ofDigitChars_eq_ofDigitChars_zero]
  rfl

theorem valueOf_replicate (n : Nat) : valueOf (List.replicate n '0') = 0 :=
  Nat.ofDigitChars_replicate_zero

theorem valueOf_lt {cs : List Char} (h : AreFigures cs) : valueOf cs < 10 ^ cs.length := by
  induction cs with
  | nil => exact Nat.one_pos
  | cons c cs ih =>
    have ih := ih fun d hd => h d (List.mem_cons_of_mem _ hd)
    have hc := isFigure_iff.mp (h c List.mem_cons_self)
    have hvalue : valueOf (c :: cs) = 10 ^ cs.length * (c.toNat - 48) + valueOf cs := by
      rw [valueOf, Nat.ofDigitChars_cons, Nat.ofDigitChars_eq_ofDigitChars_zero, Nat.mul_zero,
        Nat.zero_add]
      rfl
    have hlead : 10 ^ cs.length * (c.toNat - 48) ≤ 10 ^ cs.length * 9 := by
      gcongr
      omega
    rw [hvalue, List.length_cons, pow_succ]
    omega

end Numeral

namespace Decimal

open Numeral

/-- The digits that are written for a number have its value. -/
theorem valueOf_digitsOf (n : Nat) : valueOf (digitsOf n) = n := Nat.ofDigitChars_ten_toDigits

theorem areFigures_digitsOf (n : Nat) : AreFigures (digitsOf n) := by
  intro c hc
  have := Nat.isDigit_of_mem_toDigits (by decide) (by decide) hc
  exact isFigure_iff.mpr (Char.isDigit_iff_toNat.mp this)

theorem digitsOf_ne_nil (n : Nat) : digitsOf n ≠ [] := Nat.toDigits_ne_nil

/-- The digits of a number other than nought do not begin with one. -/
theorem head?_digitsOf {n : Nat} (hn : n ≠ 0) : (digitsOf n).head? ≠ some '0' := by
  intro h
  obtain ⟨cs, hcs⟩ := List.head?_eq_some_iff.mp h
  have hfigures := areFigures_digitsOf n
  rw [hcs] at hfigures
  have hlt := valueOf_lt fun d hd => hfigures d (List.mem_cons_of_mem _ hd)
  have hvalue : n = valueOf cs := by
    rw [← valueOf_digitsOf n, hcs]
    exact (valueOf_append ['0'] cs).trans (Nat.zero_add _)
  have hle := ten_pow_le_of_lt_width hn (k := cs.length) (by
    change cs.length < (digitsOf n).length
    rw [hcs]
    exact Nat.lt_succ_self _)
  omega

end Decimal

namespace Json

open Numeral Decimal

/-! ## Reading numbers part by part -/

/-- What may stand after a number: nothing that would go on with it. -/
def EndsNumber (rest : List Char) : Prop :=
  ∀ c, rest.head? = some c → isFigure c = false ∧ c ≠ '.' ∧ c ≠ 'e' ∧ c ≠ 'E'

/-- The figures before a point, as they are written. -/
structure IsWhole (cs : List Char) : Prop where
  figures : AreFigures cs
  given : cs ≠ []
  plain : cs = ['0'] ∨ cs.head? ≠ some '0'

/-- A fraction, if there is one. -/
def fractionText (figures : List Char) : List Char := if figures = [] then [] else '.' :: figures

/-- An exponent, if there is one. -/
def powerText : Option Int → List Char
  | none => []
  | some e => 'e' :: exponentText e

/-- Figures end where something else stands. -/
theorem takeWhile_figures {cs rest : List Char} (h : AreFigures cs)
    (hrest : ∀ c, rest.head? = some c → isFigure c = false) :
    (cs ++ rest).takeWhile isFigure = cs ∧ (cs ++ rest).dropWhile isFigure = rest := by
  have hstop : rest.takeWhile isFigure = [] ∧ rest.dropWhile isFigure = rest := by
    cases rest with
    | nil => exact ⟨rfl, rfl⟩
    | cons c rest =>
      have hc := hrest c rfl
      simp [hc]
  rw [List.takeWhile_append_of_pos h, List.dropWhile_append_of_pos h, hstop.1, hstop.2,
    List.append_nil]
  exact ⟨rfl, rfl⟩

theorem whole_append {cs rest : List Char} (h : IsWhole cs)
    (hrest : ∀ c, rest.head? = some c → isFigure c = false) : whole (cs ++ rest) = (cs, rest) := by
  obtain ⟨htake, hdrop⟩ := takeWhile_figures h.figures hrest
  rcases h.plain with rfl | hplain
  · rfl
  · cases cs with
    | nil => exact absurd rfl h.given
    | cons c cs =>
      have hc : c ≠ '0' := fun hc => hplain (by rw [hc]; rfl)
      rw [List.cons_append, whole.eq_2 _ (by intro r hr; exact hc (List.cons.inj hr).1)]
      exact Prod.ext htake hdrop

theorem fraction_of_head? {rest : List Char} (h : ∀ c, rest.head? = some c → c ≠ '.') :
    fraction rest = ([], rest) :=
  fraction.eq_2 _ fun cs hcs => h '.' (by rw [hcs]; rfl) rfl

/-- A fraction is read to its last figure. -/
theorem fraction_append {figures rest : List Char} (h : AreFigures figures)
    (hrest : ∀ c, rest.head? = some c → isFigure c = false ∧ c ≠ '.') :
    fraction (fractionText figures ++ rest) = (fractionText figures, rest) := by
  by_cases hne : figures = []
  · rw [fractionText, if_pos hne]
    exact fraction_of_head? fun c hc => (hrest c hc).2
  · have htake := (takeWhile_figures h fun c hc => (hrest c hc).1).1
    rw [fractionText, if_neg hne, List.cons_append, fraction, htake]
    simp [hne]

theorem exponentText_eq (e : Int) : ∃ digits : List Char,
    exponentText e = (if e < 0 then '-' else '+') :: digits ∧ AreFigures digits ∧ digits ≠ [] ∧
      valueOf digits = e.natAbs := by
  refine ⟨_, rfl, ?_⟩
  split
  · refine ⟨areFigures_append.mpr ⟨areFigures_replicate 1, areFigures_digitsOf _⟩, by simp, ?_⟩
    exact (valueOf_append ['0'] _).trans ((Nat.zero_add _).trans (valueOf_digitsOf _))
  · exact ⟨areFigures_digitsOf _, digitsOf_ne_nil _, valueOf_digitsOf _⟩

theorem exponent_of_head? {rest : List Char} (h : ∀ c, rest.head? = some c → c ≠ 'e' ∧ c ≠ 'E') :
    exponent rest = ([], rest) := by
  cases rest with
  | nil => rfl
  | cons c rest =>
    have hc := h c rfl
    simp [exponent, hc.1, hc.2]

/-- A power that was written is read, if the number ends after it. -/
theorem exponent_append (power : Option Int) {rest : List Char} (h : EndsNumber rest) :
    exponent (powerText power ++ rest) = (powerText power, rest) := by
  cases power with
  | none => exact exponent_of_head? fun c hc => (h c hc).2.2
  | some e =>
    obtain ⟨digits, htext, hfigures, hne, -⟩ := exponentText_eq e
    have htake := (takeWhile_figures hfigures fun c hc => (h c hc).1).1
    rw [powerText, htext]
    split <;> simp [exponent, htake, hne]

theorem exponent?_powerText (power : Option Int) :
    exponent? (powerText power) = some (power.getD 0) := by
  cases power with
  | none => rfl
  | some e =>
    obtain ⟨digits, htext, hfigures, hne, hvalue⟩ := exponentText_eq e
    rw [powerText, htext]
    have hnat := natural?_of_areFigures hfigures hne
    split
    all_goals
      simp [exponent?, sign, hnat, hvalue, -Nat.cast_natAbs]
      omega

/-- What follows the figures of a number is no figure. -/
theorem isFigure_of_head? (power : Option Int) {rest : List Char} (h : EndsNumber rest) :
    ∀ c, (powerText power ++ rest).head? = some c → isFigure c = false ∧ c ≠ '.' := by
  cases power with
  | none => exact fun c hc => ⟨(h c hc).1, (h c hc).2.1⟩
  | some e =>
    intro c hc
    cases hc
    exact ⟨rfl, by decide⟩

/-- What follows the whole part of a number is no figure either. -/
theorem isFigure_of_head?_fraction (f : List Char) (power : Option Int) {rest : List Char}
    (h : EndsNumber rest) :
    ∀ c, (fractionText f ++ (powerText power ++ rest)).head? = some c → isFigure c = false := by
  rw [fractionText]
  split
  · exact fun c hc => (isFigure_of_head? power h c hc).1
  · intro c hc
    cases hc
    rfl

theorem endsNumber_nil : EndsNumber [] := fun _ h => by cases h

/-- The size of a number that is written in parts is put together from their values. -/
theorem size?_parts {w f : List Char} (hw : IsWhole w) (hf : AreFigures f) (negative : Bool)
    (power : Option Int) :
    size? negative (w ++ (fractionText f ++ powerText power)) =
      some (.finite negative (valueOf (w ++ f)) (power.getD 0 - f.length)) := by
  have hpower := isFigure_of_head? power endsNumber_nil
  have hrest := isFigure_of_head?_fraction f power endsNumber_nil
  rw [List.append_nil] at hpower hrest
  -- the figures of the whole end at the point, at the power or with the text
  obtain ⟨htake, hdrop⟩ := takeWhile_figures hw.figures hrest
  have hvalue := natural?_of_areFigures (areFigures_append.mpr ⟨hw.figures, hf⟩)
    (List.append_ne_nil_of_left_ne_nil hw.given f)
  have hexponent := exponent?_powerText power
  unfold size?
  simp only [htake, hdrop]
  by_cases hne : f = []
  · subst hne
    rw [List.append_nil] at hvalue
    cases power with
    | none => simp [fractionText, powerText, exponent?, hvalue]
    | some e =>
      rw [powerText] at hexponent
      simp [fractionText, powerText, hexponent, hvalue]
  · obtain ⟨htake, hdrop⟩ := takeWhile_figures hf fun c hc => (hpower c hc).1
    simp [fractionText, hne, htake, hdrop, hexponent, hvalue]

/-- The sign of a number, as it is written. -/
def signText (negative : Bool) : List Char := if negative then ['-'] else []

/-- A number with a fraction or a power is read as the double nearest to it. -/
theorem readNumber_parts (negative : Bool) {w f : List Char} (power : Option Int) {rest : List Char}
    (hw : IsWhole w) (hf : AreFigures f) (hgiven : f ≠ [] ∨ power.isSome)
    (hrest : EndsNumber rest) :
    readNumber (signText negative ++ (w ++ (fractionText f ++ (powerText power ++ rest)))) =
      .ok (.float (Floating.finite negative (valueOf (w ++ f)) (power.getD 0 - f.length)).toFloat,
        rest) := by
  have hwhole := whole_append hw (isFigure_of_head?_fraction f power hrest)
  have hfraction := fraction_append hf (isFigure_of_head? power hrest)
  have hpower := exponent_append power hrest
  have hnatural := natural?_of_areFigures hw.figures hw.given
  -- with a fraction or a power it is not taken for a whole number
  have hempty : ((fractionText f).isEmpty && (powerText power).isEmpty) = false := by
    rcases hgiven with hne | hsome
    · rw [fractionText, if_neg hne]
      rfl
    · obtain ⟨e, rfl⟩ := Option.isSome_iff_exists.mp hsome
      exact Bool.and_false _
  unfold readNumber
  cases negative with
  | false =>
    obtain ⟨c, cs, rfl⟩ := List.exists_cons_of_ne_nil hw.given
    -- without a sign a figure comes first
    have hc : c ≠ '-' := fun hc => by
      have := hw.figures c List.mem_cons_self
      rw [hc] at this
      cases this
    have hsize := size?_parts hw hf false power
    rw [List.cons_append] at hwhole hsize
    simp [signText, hc, hwhole, hfraction, hpower, hnatural, hempty, hsize]
  | true =>
    simp [signText, hwhole, hfraction, hpower, hnatural, hempty, size?_parts hw hf]

/-! ## Written doubles -/

/-- A number that is written in figures, with the size that it has. -/
structure IsText (cs : List Char) (v : ℚ) (w f : List Char) (power : Option Int) : Prop where
  whole : IsWhole w
  fraction : AreFigures f
  given : f ≠ [] ∨ power.isSome
  text : cs = w ++ (fractionText f ++ powerText power)
  size : (valueOf (w ++ f) * 10 ^ (power.getD 0 - f.length) : ℚ) = v

theorem isWhole_nought : IsWhole ['0'] :=
  ⟨areFigures_replicate 1, List.cons_ne_nil _ _, .inl rfl⟩

/-- Digits that do not begin with a nought are the figures before a point, with noughts after them
too. -/
theorem isWhole_digits {digits : List Char} (h : AreFigures digits) (hne : digits ≠ [])
    (hhead : digits.head? ≠ some '0') (n : Nat) : IsWhole (digits ++ List.replicate n '0') := by
  refine ⟨areFigures_append.mpr ⟨h, areFigures_replicate n⟩, by simp [hne], .inr ?_⟩
  rwa [List.head?_append_of_ne_nil _ hne]

theorem length_digitsOf_pos (n : Nat) : 0 < (digitsOf n).length := Nat.length_toDigits_pos

/-- A number that begins after the point. -/
theorem isText_positional_small {n : Nat} {e : Int} (h : e + (digitsOf n).length ≤ 0) :
    ∃ w f, IsText (positional (digitsOf n) (e + (digitsOf n).length)) (n * 10 ^ e) w f none := by
  refine ⟨['0'], List.replicate (-(e + (digitsOf n).length)).toNat '0' ++ digitsOf n,
    isWhole_nought, areFigures_append.mpr ⟨areFigures_replicate _, areFigures_digitsOf n⟩,
    .inl ?_, ?_, ?_⟩
  · simp [digitsOf_ne_nil]
  · rw [positional, if_pos h, fractionText, if_neg (by simp [digitsOf_ne_nil])]
    simp [powerText]
  · have hvalue : valueOf (['0'] ++ (List.replicate (-(e + (digitsOf n).length)).toNat '0' ++
        digitsOf n)) = n := by
      rw [← List.append_assoc, List.singleton_append, ← List.replicate_succ, valueOf_append,
        valueOf_replicate, valueOf_digitsOf, Nat.mul_zero, Nat.zero_add]
    rw [hvalue]
    congr 2
    simp
    omega

/-- A number without places after the point but a nought. -/
theorem isText_positional_large {n : Nat} {e : Int} (hn : n ≠ 0 ∨ e = 0) (h : 0 ≤ e) :
    ∃ w f, IsText (positional (digitsOf n) (e + (digitsOf n).length)) (n * 10 ^ e) w f none := by
  obtain ⟨k, rfl⟩ := Int.eq_ofNat_of_zero_le h
  have hpos := length_digitsOf_pos n
  refine ⟨digitsOf n ++ List.replicate k '0', ['0'], ?_, areFigures_replicate 1, .inl (by simp),
    ?_, ?_⟩
  · rcases eq_or_ne n 0 with rfl | hne
    · obtain rfl : k = 0 := by omega
      exact isWhole_nought
    · exact isWhole_digits (areFigures_digitsOf n) (digitsOf_ne_nil n) (head?_digitsOf hne) k
  · have hwhole : ((k : Int) + (digitsOf n).length).toNat = (digitsOf n).length + k := by omega
    rw [positional, if_neg (by omega), hwhole, if_pos (Nat.le_add_right ..),
      Nat.add_sub_cancel_left]
    simp [fractionText, powerText]
  · rw [valueOf_append, valueOf_append, valueOf_replicate, valueOf_digitsOf, List.length_replicate,
      show valueOf ['0'] = 0 from rfl]
    push_cast
    norm_num
    ring

/-- A number with digits on both sides of the point. -/
theorem isText_positional_inside {n : Nat} {e : Int} (hn : n ≠ 0)
    (hlow : 0 < e + (digitsOf n).length) (h : e < 0) :
    ∃ w f, IsText (positional (digitsOf n) (e + (digitsOf n).length)) (n * 10 ^ e) w f none := by
  -- the point falls among the digits, the first of which is no nought
  obtain ⟨k, hk⟩ : ∃ k : Nat, e + (digitsOf n).length = k :=
    ⟨(e + (digitsOf n).length).toNat, by omega⟩
  have hlt : k < (digitsOf n).length := by omega
  have hsplit := List.take_append_drop k (digitsOf n)
  have hfigures := areFigures_digitsOf n
  rw [← hsplit, areFigures_append] at hfigures
  refine ⟨(digitsOf n).take k, (digitsOf n).drop k, ⟨hfigures.1, ?_, .inr ?_⟩, hfigures.2, .inl ?_,
    ?_, ?_⟩
  · simp [digitsOf_ne_nil]
    omega
  · rw [List.head?_take, if_neg (by omega)]
    exact head?_digitsOf hn
  · simp [hlt]
  · rw [positional, hk, if_neg (by omega), Int.toNat_natCast, if_neg (by omega), fractionText,
      if_neg (by simp [hlt])]
    simp [powerText]
  · rw [hsplit, valueOf_digitsOf]
    congr 2
    simp
    omega

/-- The scientific form of some digits is a text of the number that they stand for. -/
theorem isText_scientific {n : Nat} {e : Int} (hn : n ≠ 0) :
    ∃ w f, IsText (scientific .json (digitsOf n) (e + (digitsOf n).length - 1)) (n * 10 ^ e) w f
      (some (e + (digitsOf n).length - 1)) := by
  have hfigures := areFigures_digitsOf n
  have hhead := head?_digitsOf hn
  have hvalue := valueOf_digitsOf n
  obtain ⟨d, ds, hdigits⟩ := List.exists_cons_of_ne_nil (digitsOf_ne_nil n)
  rw [hdigits] at hfigures hhead hvalue ⊢
  refine ⟨[d], ds, ⟨fun c hc => hfigures c (by simp at hc; simp [hc]), by simp, .inr hhead⟩,
    fun c hc => hfigures c (List.mem_cons_of_mem _ hc), .inr rfl, ?_, ?_⟩
  · cases ds <;> simp [scientific, fractionText, powerText, Layout.json]
  · rw [List.singleton_append, hvalue]
    congr 2
    simp
    omega

/-- The positional form of some digits is a text of the number that they stand for. -/
theorem isText_positional {n : Nat} {e : Int} (hn : n ≠ 0 ∨ e = 0) :
    ∃ w f, IsText (positional (digitsOf n) (e + (digitsOf n).length)) (n * 10 ^ e) w f none := by
  rcases le_or_gt 0 e with he | he
  · exact isText_positional_large hn he
  rcases le_or_gt (e + (digitsOf n).length) 0 with hwhole | hwhole
  · exact isText_positional_small hwhole
  · exact isText_positional_inside (hn.resolve_right he.ne) hwhole he

/-- A decimal is written as a sign and a number with its size. -/
theorem isText_write {d : Decimal} (hd : d.digits ≠ 0 ∨ d.exponent = 0) :
    ∃ cs w f power, write .json d = signText d.negative ++ cs ∧
      IsText cs (d.digits * 10 ^ d.exponent) w f power := by
  have hsign (cs : List Char) :
      (if d.negative then '-' :: cs else cs) = signText d.negative ++ cs := by
    cases d.negative <;> rfl
  simp only [write, hsign]
  split
  · obtain ⟨w, f, h⟩ := isText_positional hd
    rw [Int.sub_add_cancel]
    exact ⟨_, w, f, none, rfl, h⟩
  · next hlarge =>
    have hn : d.digits ≠ 0 := fun hn => hlarge (by
      rw [hn, hd.resolve_left (not_not.mpr hn)]
      rfl)
    obtain ⟨w, f, h⟩ := isText_scientific (e := d.exponent) hn
    exact ⟨_, w, f, _, rfl, h⟩

/-- A decimal is read as a number of the size that was written. -/
theorem readNumber_write {d : Decimal} (hd : d.digits ≠ 0 ∨ d.exponent = 0) {rest : List Char}
    (hrest : EndsNumber rest) :
    ∃ (n : Nat) (e : Int), (n * 10 ^ e : ℚ) = d.digits * 10 ^ d.exponent ∧
      readNumber (write .json d ++ rest) =
        .ok (.float (Floating.finite d.negative n e).toFloat, rest) := by
  obtain ⟨cs, w, f, power, hwrite, h⟩ := isText_write hd
  refine ⟨_, _, h.size, ?_⟩
  have := readNumber_parts d.negative power h.whole h.fraction h.given hrest
  rw [hwrite, h.text]
  simpa only [List.append_assoc] using this

/-- What begins like a number is no name. -/
theorem readWord_of_isFigure (negative : Bool) {c : Char} (hc : isFigure c = true)
    (rest : List Char) :
    readWord (signText negative ++ c :: rest) = readNumber (signText negative ++ c :: rest) := by
  have hne (d : Char) (hd : isFigure d = false) : ¬d = c := fun h => by
    rw [h, hc] at hd
    cases hd
  have hnone :
      (named.find? fun e => e.1.toList.isPrefixOf (signText negative ++ c :: rest)) = none := by
    cases negative <;>
      simp [named, signText, hne 'n' rfl, hne 't' rfl, hne 'f' rfl, hne 'N' rfl, hne 'I' rfl,
        hne '-' rfl]
  rw [readWord, hnone]

/-- The doubles that no decimal with a digit stands for. -/
theorem classify_special :
    (∀ negative, classify (if negative then -0.0 else 0.0) = .finite ⟨negative, 0, -1074⟩) ∧
      (∀ negative, classify (if negative then -1.0 / 0.0 else 1.0 / 0.0) = .infinite negative) ∧
      classify (0.0 / 0.0) = .notNumber := by
  decide +kernel

/-- Nought is read as the double that is nought and has its sign. -/
theorem toFloat_nought {x : Float} {b : Binary} (h : classify x = .finite b) (hm : b.mantissa = 0)
    (e : Int) : (Floating.finite b.negative 0 e).toFloat = x := by
  obtain ⟨negative, m, k⟩ := b
  obtain rfl : m = 0 := hm
  obtain rfl : k = -1074 := exponent_of_classify h rfl
  have hread : (Floating.finite negative 0 e).toFloat = if negative then -0.0 else 0.0 := by
    simp [Floating.toFloat]
  rw [hread]
  exact eq_of_classify ((classify_special.1 negative).trans h.symm)

/-- No name begins like a decimal. -/
theorem readWord_write {d : Decimal} (hd : d.digits ≠ 0 ∨ d.exponent = 0) (rest : List Char) :
    readWord (write .json d ++ rest) = readNumber (write .json d ++ rest) := by
  obtain ⟨cs, w, f, power, hwrite, h⟩ := isText_write hd
  obtain ⟨c, w, rfl⟩ := List.exists_cons_of_ne_nil h.whole.given
  rw [hwrite, h.text, List.append_assoc]
  exact readWord_of_isFigure d.negative (h.whole.figures c List.mem_cons_self) _

/-- The shortest decimal of a double has a digit, or is a plain nought. -/
theorem digits_ofBinary {x : Float} {b : Binary} (h : classify x = .finite b) :
    (ofBinary b).digits ≠ 0 ∨ (ofBinary b).exponent = 0 := by
  rcases b.mantissa.eq_zero_or_pos with hm | hm
  · exact .inr (by rw [ofBinary, if_pos hm])
  · refine .inl fun hzero => ?_
    have hround := roundsTo_ofBinary (isProper_of_classify h hm)
    rw [hzero] at hround
    simpa using hround.pos (isProper_of_classify h hm)

/-- The shortest decimal of a double is read as the double. -/
theorem readWord_ofBinary {x : Float} {b : Binary} (h : classify x = .finite b) {rest : List Char}
    (hrest : EndsNumber rest) :
    readWord (write .json (ofBinary b) ++ rest) = .ok (.float x, rest) := by
  have hdigits := digits_ofBinary h
  obtain ⟨n, e, hsize, hread⟩ := readNumber_write hdigits hrest
  rw [readWord_write hdigits, hread, ofBinary_negative]
  rcases b.mantissa.eq_zero_or_pos with hm | hm
  · have hn : n = 0 := by
      rw [show ofBinary b = ⟨b.negative, 0, 0⟩ from if_pos hm] at hsize
      simpa [zpow_ne_zero e (by norm_num : (10 : ℚ) ≠ 0)] using hsize
    rw [hn, toFloat_nought h hm]
  · have hround := roundsTo_ofBinary (isProper_of_classify h hm)
    rw [← hsize] at hround
    rw [toFloat_eq h hm hround]

/-- A double is read as it was written: by its name, or as its shortest decimal. -/
theorem readWord_ofFloat (x : Float) {rest : List Char} (hrest : EndsNumber rest) :
    readWord ((Decimal.ofFloat .json x).toList ++ rest) = .ok (.float x, rest) := by
  rw [Decimal.ofFloat]
  cases h : classify x with
  | notNumber =>
    rw [eq_of_classify (h.trans classify_special.2.2.symm)]
    rfl
  | infinite negative =>
    rw [eq_of_classify (h.trans (classify_special.2.1 negative).symm)]
    cases negative <;> rfl
  | finite b =>
    simp only [String.toList_ofList]
    exact readWord_ofBinary h hrest

/-! ## Written integers -/

theorem isWhole_digitsOf (n : Nat) : IsWhole (digitsOf n) := by
  rcases eq_or_ne n 0 with rfl | hn
  · exact isWhole_nought
  · exact ⟨areFigures_digitsOf n, digitsOf_ne_nil n, .inr (head?_digitsOf hn)⟩

/-- Digits alone are read as an integer, unless there are too many of them. -/
theorem readNumber_digitsOf {n : Nat} (h : (digitsOf n).length ≤ longest) (negative : Bool)
    {rest : List Char} (hrest : EndsNumber rest) :
    readNumber (signText negative ++ (digitsOf n ++ rest)) =
      .ok (.int (if negative then -(n : Int) else n), rest) := by
  have hwhole := whole_append (isWhole_digitsOf n) fun c hc => (hrest c hc).1
  have hfraction := fraction_of_head? fun c hc => (hrest c hc).2.1
  have hpower := exponent_of_head? fun c hc => (hrest c hc).2.2
  have hnatural := natural?_of_areFigures (areFigures_digitsOf n) (digitsOf_ne_nil n)
  rw [valueOf_digitsOf] at hnatural
  unfold readNumber
  -- a sign is taken off first; without one the first digit must not be mistaken for it
  cases negative with
  | false =>
    obtain ⟨c, cs, hdigits⟩ := List.exists_cons_of_ne_nil (digitsOf_ne_nil n)
    have hc : c ≠ '-' := fun hc => by
      have := areFigures_digitsOf n c (by simp [hdigits])
      rw [hc] at this
      cases this
    rw [hdigits] at hwhole hnatural h ⊢
    rw [List.cons_append] at hwhole
    simp only [List.length_cons] at h
    simp [signText, hc, hwhole, hfraction, hpower, hnatural]
    omega
  | true => simp [signText, hwhole, hfraction, hpower, hnatural, h]

/-- The characters that the name or number of a value that is no text can begin with. -/
def StartsWord (cs : List Char) : Prop :=
  ∃ c rest, cs = c :: rest ∧ (isFigure c = true ∨ c ∈ ['-', 'N', 'I'])

theorem startsWord_signText (negative : Bool) {cs : List Char} (h : AreFigures cs) (hne : cs ≠ [])
    (rest : List Char) : StartsWord (signText negative ++ (cs ++ rest)) := by
  cases negative with
  | false =>
    obtain ⟨c, cs, rfl⟩ := List.exists_cons_of_ne_nil hne
    exact ⟨c, cs ++ rest, rfl, .inl (h c List.mem_cons_self)⟩
  | true => exact ⟨'-', cs ++ rest, rfl, .inr (by decide)⟩

theorem startsWord_ofFloat (x : Float) : StartsWord (Decimal.ofFloat .json x).toList := by
  rw [Decimal.ofFloat]
  cases h : classify x with
  | notNumber => exact ⟨_, _, rfl, .inr (by decide)⟩
  | infinite negative => cases negative <;> exact ⟨_, _, rfl, .inr (by decide)⟩
  | finite b =>
    obtain ⟨cs, w, f, power, hwrite, htext⟩ := isText_write (digits_ofBinary h)
    rw [String.toList_ofList, hwrite, htext.text]
    exact startsWord_signText _ htext.whole.figures htext.whole.given _

end Json

end Raml
