import Mathlib
import Raml.Proofs.Decimal.Packed

/-!
# The shortest decimal of a double

The search for a short decimal looks on finer and finer grids for a multiple inside an interval,
which is given in whole numbers. What lies in that interval rounds to the double
(`roundsTo_of_holds`), and the grid of seventeen digits is finer than the interval is wide, so that
one of the neighbours of the double on it lies inside (`exists_onGrid?`). The search therefore finds
a decimal, and that rounds to the double (`roundsTo_ofBinary`).
-/

namespace Raml.Decimal

/-! ## The reals that round to a double -/

theorem twoTo_eq (n : Nat) : twoTo n = 2 ^ n := rfl
theorem tenTo_eq (n : Nat) : tenTo n = 10 ^ n := rfl

/-- A power with an exponent of either sign is a fraction of two that have none. -/
theorem zpow_eq_div (a : ℚ) (e : Int) : a ^ e = a ^ e.toNat / a ^ (-e).toNat := by
  rcases le_total 0 e with he | he
  · obtain ⟨k, rfl⟩ := Int.eq_ofNat_of_zero_le he
    rw [Int.toNat_natCast, Int.toNat_of_nonpos (by omega), pow_zero, div_one, zpow_natCast]
  · obtain ⟨k, hk⟩ := Int.eq_ofNat_of_zero_le (Int.neg_nonneg.mpr he)
    obtain rfl : e = -(k : Int) := by omega
    rw [Int.toNat_of_nonpos he, hk, Int.toNat_natCast, pow_zero, one_div, zpow_neg, zpow_natCast]

/-- How far below a double the numbers that round to it begin, in steps of its exponent. -/
def gapBelow (b : Binary) : ℚ := if b.mantissa = 2 ^ 52 ∧ b.exponent ≠ -1074 then 1 / 4 else 1 / 2

section Interval

variable {b : Binary}

theorem denominator_pos (b : Binary) : (0 : ℚ) < b.interval.denominator := by
  simp only [Binary.interval, twoTo_eq]
  positivity

theorem scale_eq (b : Binary) (x : ℚ) :
    x * 2 ^ (b.exponent - 2).toNat / (b.interval.denominator : Nat) = x / 4 * 2 ^ b.exponent := by
  have h := zpow_eq_div 2 (b.exponent - 2)
  rw [zpow_sub₀ two_ne_zero, Int.neg_sub] at h
  simp only [Binary.interval, twoTo_eq]
  push_cast
  rw [mul_div_assoc, ← h]
  norm_num
  ring

/-- The middle of the interval is the double. -/
theorem center_eq (b : Binary) :
    (b.interval.center / b.interval.denominator : ℚ) = b.mantissa * 2 ^ b.exponent := by
  have h := scale_eq b (4 * b.mantissa)
  simp only [Binary.interval, twoTo_eq] at h ⊢
  push_cast at h ⊢
  rw [h]
  ring

/-- The upper end of the interval is half a step above the double. -/
theorem high_eq (b : Binary) :
    (b.interval.high / b.interval.denominator : ℚ) = (b.mantissa + 1 / 2) * 2 ^ b.exponent := by
  have h := scale_eq b (4 * b.mantissa + 2)
  simp only [Binary.interval, twoTo_eq] at h ⊢
  push_cast at h ⊢
  rw [h]
  ring

/-- The lower end is half a step below the double, or a quarter at a power of two. -/
theorem low_eq (hm : 0 < b.mantissa) :
    (b.interval.low / b.interval.denominator : ℚ) = (b.mantissa - gapBelow b) * 2 ^ b.exponent := by
  have h := scale_eq b (4 * b.mantissa - 4 * gapBelow b)
  have hlow : ((b.interval.low : Nat) : ℚ) =
      (4 * b.mantissa - 4 * gapBelow b) * 2 ^ (b.exponent - 2).toNat := by
    have hlow : b.interval.low =
        (4 * b.mantissa - (if b.mantissa = 2 ^ 52 ∧ b.exponent ≠ -1074 then 1 else 2)) *
          2 ^ (b.exponent - 2).toNat := by
      simp only [Binary.interval, Bool.and_eq_true, decide_eq_true_eq]
      rfl
    rw [hlow, gapBelow]
    split
    · push_cast [Nat.cast_sub (by omega : 1 ≤ 4 * b.mantissa)]
      ring
    · push_cast [Nat.cast_sub (by omega : 2 ≤ 4 * b.mantissa)]
      ring
  rw [hlow, h]
  ring

/-- The numbers in an interval, as fractions. -/
theorem holds_iff (i : Interval) (hi : 0 < i.denominator) {num den : Nat} (hden : 0 < den) :
    i.holds num den = true ↔
      if i.closed then
        (i.low / i.denominator : ℚ) ≤ num / den ∧ (num / den : ℚ) ≤ i.high / i.denominator
      else (i.low / i.denominator : ℚ) < num / den ∧ (num / den : ℚ) < i.high / i.denominator := by
  have hi : (0 : ℚ) < i.denominator := by exact_mod_cast hi
  have hden : (0 : ℚ) < den := by exact_mod_cast hden
  rw [div_le_div_iff₀ hi hden, div_le_div_iff₀ hden hi, div_lt_div_iff₀ hi hden,
    div_lt_div_iff₀ hden hi]
  simp only [Interval.holds]
  norm_cast
  split <;> simp

/-- What lies in the interval of a double rounds to it. -/
theorem roundsTo_of_holds (hm : 0 < b.mantissa) {num den : Nat} (hden : 0 < den)
    (h : b.interval.holds num den = true) : RoundsTo b.mantissa b.exponent (num / den) := by
  have hpos : (0 : ℚ) < 2 ^ b.exponent := by positivity
  have h := (holds_iff _ (by exact_mod_cast denominator_pos b) hden).mp h
  rw [low_eq hm, high_eq] at h
  generalize (num / den : ℚ) = v at h
  have hends : (b.mantissa - gapBelow b) * 2 ^ b.exponent ≤ v ∧
      v ≤ (b.mantissa + 1 / 2) * 2 ^ b.exponent := by
    split at h
    · exact h
    · exact ⟨h.1.le, h.2.le⟩
  have hgap : gapBelow b ≤ 1 / 2 := by
    unfold gapBelow
    split <;> norm_num
  -- below a power of two the interval is half as wide, and its ends count for even mantissas only
  refine ⟨le_trans (by gcongr) hends.1, fun hfull he => ?_, hends.2, fun htie => ?_⟩
  · rw [gapBelow, if_pos ⟨hfull, he.ne'⟩] at hends
    exact hends.1
  · by_contra hodd
    rw [if_neg (by simpa [Binary.interval] using hodd)] at h
    rcases htie with rfl | rfl
    · exact absurd h.1 (not_lt.mpr (by gcongr))
    · exact absurd h.2 (lt_irrefl _)

/-! ## The search -/

/-- The leading digit stands no further left than it does in the double. -/
theorem ten_zpow_leading_le (hp : IsProper b.mantissa b.exponent) :
    (10 : ℚ) ^ b.interval.leading ≤ b.mantissa * 2 ^ b.exponent := by
  have hden := denominator_pos b
  have hsize : (1 : ℚ) ≤ b.mantissa * 2 ^ b.exponent * 10 ^ 400 := by
    have hm : (1 : ℚ) ≤ b.mantissa := by exact_mod_cast hp.pos
    calc (1 : ℚ) = 2 ^ (-1074 : Int) * 2 ^ 1074 := by
          rw [zpow_neg, ← zpow_natCast, Nat.cast_ofNat, inv_mul_cancel₀ (by positivity)]
      _ ≤ 1 * 2 ^ b.exponent * 10 ^ 400 := by
        rw [one_mul]
        gcongr
        · norm_num
        · exact hp.least
        · exact_mod_cast two_pow_le_ten_pow.2.1
      _ ≤ b.mantissa * 2 ^ b.exponent * 10 ^ 400 := by gcongr
  -- `n` is what stands before the point if that is moved on by `depth` places
  obtain ⟨n, hn⟩ : ∃ n, n = b.interval.center * tenTo depth / b.interval.denominator := ⟨_, rfl⟩
  have hfloor : n = ⌊(b.mantissa * 2 ^ b.exponent * 10 ^ 400 : ℚ)⌋₊ := by
    rw [hn, ← Nat.floor_div_eq_div (K := ℚ), ← center_eq, tenTo_eq]
    push_cast
    rw [depth, div_mul_eq_mul_div]
  have hpos := width_pos n
  have hdigits : ((10 ^ (width n - 1) : Nat) : ℚ) ≤ b.mantissa * 2 ^ b.exponent * 10 ^ 400 := by
    have hne : n ≠ 0 := by
      rw [hfloor]
      exact (Nat.floor_pos.mpr hsize).ne'
    have hle : 10 ^ (width n - 1) ≤ n := ten_pow_le_of_lt_width hne (by omega)
    have hfloor : (n : ℚ) ≤ b.mantissa * 2 ^ b.exponent * 10 ^ 400 := by
      rw [hfloor]
      exact Nat.floor_le (by positivity)
    exact (Nat.cast_le.mpr hle).trans hfloor
  have hleading : b.interval.leading = ((width n - 1 : Nat) : Int) - (400 : Nat) := by
    rw [Interval.leading, ← hn, depth]
    omega
  rw [hleading, zpow_sub₀ (by norm_num), zpow_natCast, zpow_natCast, div_le_iff₀ (by positivity)]
  exact_mod_cast hdigits

/-- What lies on a grid and is found there lies in the interval. -/
theorem holds_of_onGrid? {i : Interval} {step : Int} {digits : Nat}
    (h : i.onGrid? step = some digits) :
    i.holds (digits * tenTo step.toNat) (tenTo (-step).toNat) = true := by
  unfold Interval.onGrid? at h
  simp only at h
  split at h
  · next h₁ h₂ =>
    split at h
    · cases h
      exact h₁
    · cases h
      exact h₂
  · next h₁ _ =>
    cases h
    exact h₁
  · next _ h₂ =>
    cases h
    exact h₂
  · cases h

/-- If a grid has no decimal for a double, then neither of the two neighbours on it is in the
interval. -/
theorem not_holds_of_onGrid?_eq_none {i : Interval} {step : Int} (h : i.onGrid? step = none) :
    ∃ below : Nat, below = i.center * tenTo (-step).toNat / (i.denominator * tenTo step.toNat) ∧
      i.holds (below * tenTo step.toNat) (tenTo (-step).toNat) = false ∧
      i.holds ((below + 1) * tenTo step.toNat) (tenTo (-step).toNat) = false := by
  refine ⟨_, rfl, ?_⟩
  unfold Interval.onGrid? at h
  simp only at h
  split at h
  · split at h <;> cases h
  · cases h
  · cases h
  · next h₁ h₂ => exact ⟨h₁, h₂⟩

/-- A fraction outside of the interval is on one side of it. -/
theorem low_or_high_of_not_holds {i : Interval} (hi : 0 < i.denominator) {num den : Nat}
    (hden : 0 < den) (h : i.holds num den = false) :
    (num / den : ℚ) ≤ i.low / i.denominator ∨ (i.high / i.denominator : ℚ) ≤ num / den := by
  by_contra hin
  push Not at hin
  have hholds := (holds_iff i hi hden).mpr (by
    split
    · exact ⟨hin.1.le, hin.2.le⟩
    · exact hin)
  rw [h] at hholds
  cases hholds

/-- The points of a grid. -/
theorem onGrid_eq (n : Nat) (step : Int) :
    ((n * tenTo step.toNat : Nat) / (tenTo (-step).toNat : Nat) : ℚ) = n * 10 ^ step := by
  rw [zpow_eq_div 10 step, tenTo_eq, tenTo_eq]
  push_cast
  ring

/-- On a grid that is finer than the gap around a double, one of its neighbours is found. -/
theorem exists_onGrid? (hm : 0 < b.mantissa) {step : Int}
    (hfine : (10 : ℚ) ^ step < (gapBelow b + 1 / 2) * 2 ^ b.exponent) :
    ∃ digits, b.interval.onGrid? step = some digits := by
  by_contra hnone
  obtain ⟨below, hbelow, hleft, hright⟩ := not_holds_of_onGrid?_eq_none
    (Option.eq_none_iff_forall_ne_some.mpr (not_exists.mp hnone))
  have hden : 0 < b.interval.denominator := by exact_mod_cast denominator_pos b
  have hup : 0 < tenTo step.toNat := Nat.pow_pos (by decide)
  have hdown : 0 < tenTo (-step).toNat := Nat.pow_pos (by decide)
  -- the double lies between both neighbours, and neither of them lies in its interval
  have hfloor : (below * 10 ^ step : ℚ) ≤ b.mantissa * 2 ^ b.exponent ∧
      (b.mantissa * 2 ^ b.exponent : ℚ) < (below + 1 : Nat) * 10 ^ step := by
    have hstep : (0 : ℚ) < 10 ^ step := by positivity
    have hfloor : below = ⌊(b.mantissa * 2 ^ b.exponent / 10 ^ step : ℚ)⌋₊ := by
      rw [hbelow, ← Nat.floor_div_eq_div (K := ℚ), ← center_eq, zpow_eq_div 10 step, tenTo_eq,
        tenTo_eq]
      push_cast
      field_simp
    rw [← le_div_iff₀ hstep, ← div_lt_iff₀ hstep, hfloor, Nat.cast_succ]
    exact ⟨Nat.floor_le (by positivity), Nat.lt_floor_add_one _⟩
  have hleft := low_or_high_of_not_holds hden hdown hleft
  have hright := low_or_high_of_not_holds hden hdown hright
  rw [onGrid_eq, low_eq hm, high_eq] at hleft hright
  have hpos : (0 : ℚ) < 2 ^ b.exponent := by positivity
  have hgap : 0 < gapBelow b := by
    unfold gapBelow
    split <;> norm_num
  have hleft := hleft.resolve_right (by nlinarith)
  have hright := hright.resolve_left (by nlinarith)
  push_cast at hright
  linarith

/-- Seventeen digits are enough for every double. -/
theorem step_lt_gap (hp : IsProper b.mantissa b.exponent) :
    (10 : ℚ) ^ (b.interval.leading - 16) < (gapBelow b + 1 / 2) * 2 ^ b.exponent := by
  have hpos : (0 : ℚ) < 2 ^ b.exponent := by positivity
  have hlt : (b.mantissa : ℚ) < 2 ^ 53 := by exact_mod_cast hp.lt
  -- sixteen digits below the leading one are finer than the interval is wide
  have hgap : (b.mantissa / 10 ^ 16 : ℚ) < gapBelow b + 1 / 2 := by
    rw [gapBelow]
    split
    · next h =>
      rw [h.1]
      norm_num
    · rw [div_lt_iff₀ (by positivity)]
      linarith
  calc (10 : ℚ) ^ (b.interval.leading - 16) = 10 ^ b.interval.leading / 10 ^ 16 := by
        rw [zpow_sub₀ (by norm_num)]
        norm_num
    _ ≤ b.mantissa * 2 ^ b.exponent / 10 ^ 16 := by
        gcongr
        exact ten_zpow_leading_le hp
    _ = b.mantissa / 10 ^ 16 * 2 ^ b.exponent := by ring
    _ < _ := by gcongr

/-- Taking noughts off the end does not change the number. -/
theorem stripNoughts_value (rounds digits : Nat) (exponent : Int) :
    ((stripNoughts rounds digits exponent).1 * 10 ^ (stripNoughts rounds digits exponent).2 : ℚ) =
      digits * 10 ^ exponent := by
  induction rounds generalizing digits exponent with
  | zero => rfl
  | succ r ih =>
    rw [stripNoughts]
    split
    · next h =>
      obtain ⟨k, rfl⟩ : ∃ k, digits = 10 * k := ⟨digits / 10, by simp at h; omega⟩
      rw [ih, Nat.mul_div_cancel_left _ (by decide), zpow_add_one₀ (by norm_num)]
      push_cast
      ring
    · rfl

/-- The search finds a decimal in the interval of the double. -/
theorem exists_digits (hp : IsProper b.mantissa b.exponent) :
    ∃ (digits : Nat) (step : Int), RoundsTo b.mantissa b.exponent (digits * 10 ^ step) ∧
      ofBinary b = ⟨b.negative, (stripNoughts (width digits) digits step).1,
        (stripNoughts (width digits) digits step).2⟩ := by
  obtain ⟨last, hlast⟩ := exists_onGrid? hp.pos (step_lt_gap hp)
  simp only [ofBinary, if_neg hp.pos.ne']
  generalize hfound : List.findSome? (fun step => (b.interval.onGrid? step).map (·, step))
    ((List.range 17).map fun (k : Nat) => b.interval.leading - (k : Int)) = found
  -- the finest of the grids always has a decimal, so the search does not come up empty
  cases found with
  | none =>
    rw [List.findSome?_eq_none_iff] at hfound
    have := hfound (b.interval.leading - 16)
      (List.mem_map.mpr ⟨16, List.mem_range.mpr (by decide), rfl⟩)
    rw [hlast] at this
    cases this
  | some p =>
    obtain ⟨digits, step⟩ := p
    obtain ⟨g, -, hg⟩ := List.exists_of_findSome?_eq_some hfound
    obtain ⟨d, hd, hpair⟩ := Option.map_eq_some_iff.mp hg
    cases hpair
    refine ⟨digits, step, ?_, rfl⟩
    rw [← onGrid_eq digits step]
    exact roundsTo_of_holds hp.pos (Nat.pow_pos (by decide)) (holds_of_onGrid? hd)

/-- The shortest decimal of a double rounds to it. -/
theorem roundsTo_ofBinary (hp : IsProper b.mantissa b.exponent) :
    RoundsTo b.mantissa b.exponent ((ofBinary b).digits * 10 ^ (ofBinary b).exponent) := by
  obtain ⟨digits, step, hr, h⟩ := exists_digits hp
  rw [h, stripNoughts_value]
  exact hr

theorem ofBinary_negative (b : Binary) : (ofBinary b).negative = b.negative := by
  unfold ofBinary
  split
  · rfl
  · simp only
    split <;> rfl

end Interval

end Raml.Decimal
