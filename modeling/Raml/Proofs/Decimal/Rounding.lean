import Mathlib
import Raml.Decimal.Shortest

/-!
# Rounding to doubles

A result of the arithmetic of doubles is a mantissa with two more bits: whether the fraction after
it reaches a half, and whether anything is left beyond that. `Stands` says for which numbers such a
mantissa stands. Shifting keeps that, and rounding gives the nearest integer, of which there is only
one (`IsNearest.unique`). The numbers that round to a double are those of an interval around it
(`RoundsTo`), so whatever stands for one of them without loss, and is rounded once, gives the
double: a product (`mul_eq`), a quotient (`div_eq`) and with these a decimal (`ofScientific_eq`).
-/

namespace Raml.Decimal

open Float.Model (Format UnpackedFloat totalExponent)
open Float.Model.UnpackedFloat

/-! ## Mantissas with two more bits -/

/-- The numbers for which a mantissa stands together with the two bits after it. -/
def Stands : ExtendedMantissa → ℚ → Prop
  | ⟨n, false, false⟩, x => x = n
  | ⟨n, false, true⟩, x => n < x ∧ x < n + 1 / 2
  | ⟨n, true, false⟩, x => x = n + 1 / 2
  | ⟨n, true, true⟩, x => n + 1 / 2 < x ∧ x < n + 1

/-- The integer nearest to a number, and of two as near the even one. -/
structure IsNearest (n : Nat) (x : ℚ) : Prop where
  low : (n : ℚ) - 1 / 2 ≤ x
  high : x ≤ n + 1 / 2
  even : x = n - 1 / 2 ∨ x = n + 1 / 2 → n % 2 = 0

/-- Of two neighbours at most one is nearest, as a tie goes to the even one. -/
theorem IsNearest.unique {a b : Nat} {x : ℚ} (ha : IsNearest a x) (hb : IsNearest b x) :
    a = b := by
  have key {a b : Nat} (ha : IsNearest a x) (hb : IsNearest b x) : ¬ a < b := by
    intro hlt
    have hle : (a : ℚ) + 1 ≤ b := by exact_mod_cast hlt
    -- the number lies in the middle, so both of these neighbours would be even
    have hx : x = a + 1 / 2 := le_antisymm ha.high (by linarith [hb.low])
    have hb' : (b : ℚ) = a + 1 := by linarith [hb.low]
    have hab : b = a + 1 := by exact_mod_cast hb'
    have := ha.even (.inr hx)
    have := hb.even (.inl (by rw [hb', hx]; ring))
    omega
  have := key ha hb
  have := key hb ha
  omega

/-- A number strictly closer to an integer than a half has it as the nearest one. -/
theorem IsNearest.of_lt {n : Nat} {x : ℚ} (hlow : (n : ℚ) - 1 / 2 < x) (hhigh : x < n + 1 / 2) :
    IsNearest n x :=
  ⟨hlow.le, hhigh.le, by rintro (h | h) <;> linarith⟩

/-- A mantissa with its two extra bits rounds to the nearest number. -/
theorem isNearest_roundedMantissa {em : ExtendedMantissa} {x : ℚ} (h : Stands em x) :
    IsNearest em.roundedMantissa x := by
  obtain ⟨n, _ | _, _ | _⟩ := em <;> simp only [Stands] at h
  · change IsNearest n x
    exact .of_lt (by linarith) (by linarith)
  · change IsNearest n x
    exact .of_lt (by linarith) (by linarith)
  · change IsNearest (n + n % 2) x
    -- in the middle: to the even one of both sides
    obtain hn | hn : n % 2 = 0 ∨ n % 2 = 1 := by omega
    · rw [hn, Nat.add_zero]
      exact ⟨by linarith, h.le, fun _ => hn⟩
    · rw [hn]
      exact ⟨by push_cast; linarith, by push_cast; linarith, fun _ => by omega⟩
  · change IsNearest (n + 1) x
    exact .of_lt (by push_cast; linarith) (by push_cast; linarith)

theorem shiftRightOne_even (k : Nat) (round sticky : Bool) :
    ExtendedMantissa.shiftRightOne ⟨2 * k, round, sticky⟩ = ⟨k, false, round || sticky⟩ := by
  simp [ExtendedMantissa.shiftRightOne]

theorem shiftRightOne_odd (k : Nat) (round sticky : Bool) :
    ExtendedMantissa.shiftRightOne ⟨2 * k + 1, round, sticky⟩ = ⟨k, true, round || sticky⟩ := by
  simp [ExtendedMantissa.shiftRightOne, Nat.add_mod]
  omega

/-- Shifting by one bit halves the number, and the extra bits keep track of what was lost. -/
theorem Stands.shiftRightOne {em : ExtendedMantissa} {x : ℚ} (h : Stands em x) :
    Stands em.shiftRightOne (x / 2) := by
  obtain ⟨n, round, sticky⟩ := em
  obtain ⟨k, rfl | rfl⟩ : ∃ k, n = 2 * k ∨ n = 2 * k + 1 := ⟨n / 2, by omega⟩
  · rw [shiftRightOne_even]
    cases round <;> cases sticky <;> simp only [Stands, Bool.or_false, Bool.or_true] at h ⊢ <;>
      push_cast at h
    · linarith
    all_goals exact ⟨by linarith, by linarith⟩
  · rw [shiftRightOne_odd]
    cases round <;> cases sticky <;> simp only [Stands, Bool.or_false, Bool.or_true] at h ⊢ <;>
      push_cast at h
    · linarith
    all_goals exact ⟨by linarith, by linarith⟩

/-- Shifting by several bits does the same several times. -/
theorem Stands.shiftRight {em : ExtendedMantissa} {x : ℚ} (h : Stands em x) (k : Nat) :
    Stands (em >>> k) (x / 2 ^ k) := by
  change Stands (k.repeat ExtendedMantissa.shiftRightOne em) _
  induction k with
  | zero => simpa [Nat.repeat] using h
  | succ k ih =>
    rw [Nat.repeat, pow_succ, ← div_div]
    exact ih.shiftRightOne

/-! ## Doubles -/

/-- The parts that a double other than nought can have. -/
structure IsProper (m : Nat) (e : Int) : Prop where
  pos : 0 < m
  lt : m < 2 ^ 53
  least : -1074 ≤ e
  most : e ≤ 971
  full : 2 ^ 52 ≤ m ∨ e = -1074

/-- The least exponent that a number of the size of `n * 2 ^ e` gets. -/
def gridOf (n : Nat) (e : Int) : Int := max (n.log2 + 1 + e - 53) (-1074)

theorem targetExponent_eq (n : Nat) (e : Int) :
    Format.binary64.targetExponent (totalExponent n e) = gridOf n e := rfl

/--
The numbers that round to `m * 2 ^ e`: up to half the way to the double above, and half the way to
the one below, which is closer where `m` is a power of two; the ends only if `m` is even.
-/
structure RoundsTo (m : Nat) (e : Int) (v : ℚ) : Prop where
  low : (m - 1 / 2 : ℚ) * 2 ^ e ≤ v
  lowFull : m = 2 ^ 52 → -1074 < e → (m - 1 / 4 : ℚ) * 2 ^ e ≤ v
  high : v ≤ (m + 1 / 2 : ℚ) * 2 ^ e
  even : v = (m - 1 / 2 : ℚ) * 2 ^ e ∨ v = (m + 1 / 2 : ℚ) * 2 ^ e → m % 2 = 0

/-- The mantissa of a double is nearest to what rounds to it, on the grid of the double. -/
theorem isNearest_of_roundsTo {m : Nat} {e : Int} {v : ℚ} (h : RoundsTo m e v) :
    IsNearest m (v / 2 ^ e) := by
  have he : (0 : ℚ) < 2 ^ e := by positivity
  refine ⟨?_, ?_, ?_⟩
  · rw [le_div_iff₀ he]
    exact h.low
  · rw [div_le_iff₀ he]
    exact h.high
  · rw [div_eq_iff he.ne', div_eq_iff he.ne']
    exact h.even

theorem stands_exact (n : Nat) : Stands (.ofMantissaAndAccuracy n .exact) n := rfl

/-- What stands behind a mantissa is less than one above it. -/
theorem bounds_of_stands {n : Nat} {acc : Accuracy} {x : ℚ}
    (h : Stands (.ofMantissaAndAccuracy n acc) x) : (n : ℚ) ≤ x ∧ x < n + 1 := by
  obtain _ | (_ | _ | _) := acc <;>
    simp only [ExtendedMantissa.ofMantissaAndAccuracy, Stands] at h <;> constructor <;> linarith

section Grid

variable {m n : Nat} {e E : Int} {x v : ℚ}

theorem two_zpow_add (a : Nat) (e : Int) : (2 : ℚ) ^ ((a : Int) + e) = 2 ^ a * 2 ^ e := by
  rw [zpow_add₀ two_ne_zero, zpow_natCast]

theorem lt_of_two_zpow_lt {a b : Int} (h : (2 : ℚ) ^ a < 2 ^ b) : a < b :=
  (zpow_lt_zpow_iff_right₀ one_lt_two).mp h

/-- What rounds to a double is below the next power of two. -/
theorem RoundsTo.lt (hp : IsProper m e) (h : RoundsTo m e v) : v < 2 ^ (53 + e) := by
  have he : (0 : ℚ) < 2 ^ e := by positivity
  have hm : (m : ℚ) + 1 ≤ 2 ^ 53 := by exact_mod_cast hp.lt
  calc v ≤ (m + 1 / 2 : ℚ) * 2 ^ e := h.high
    _ < 2 ^ 53 * 2 ^ e := by gcongr; linarith
    _ = 2 ^ (53 + e) := (two_zpow_add 53 e).symm

/-- What rounds to a normal double is at least half of the least one with that exponent. -/
theorem RoundsTo.ge (hm : 2 ^ 52 ≤ m) (h : RoundsTo m e v) : 2 ^ (51 + e) ≤ v := by
  have he : (0 : ℚ) < 2 ^ e := by positivity
  have hm : (2 : ℚ) ^ 52 ≤ m := by exact_mod_cast hm
  calc (2 : ℚ) ^ (51 + e) = 2 ^ 51 * 2 ^ e := two_zpow_add 51 e
    _ ≤ (m - 1 / 2 : ℚ) * 2 ^ e := by gcongr; linarith
    _ ≤ v := h.low

/-- Away from a power of two, what rounds to a double has its exponent. -/
theorem RoundsTo.ge_of_lt (hm : 2 ^ 52 < m) (h : RoundsTo m e v) : 2 ^ (52 + e) ≤ v := by
  have he : (0 : ℚ) < 2 ^ e := by positivity
  have hm : (2 : ℚ) ^ 52 + 1 ≤ m := by exact_mod_cast hm
  calc (2 : ℚ) ^ (52 + e) = 2 ^ 52 * 2 ^ e := two_zpow_add 52 e
    _ ≤ (m - 1 / 2 : ℚ) * 2 ^ e := by gcongr; linarith
    _ ≤ v := h.low

theorem two_zpow_log2_le (hn : n ≠ 0) (hx : (n : ℚ) ≤ x) :
    2 ^ ((n.log2 : Int) + E) ≤ x * 2 ^ E := by
  have hE : (0 : ℚ) < 2 ^ E := by positivity
  have hlog : ((2 ^ n.log2 : Nat) : ℚ) ≤ n := by exact_mod_cast Nat.log2_self_le hn
  rw [two_zpow_add]
  push_cast at hlog
  gcongr
  exact hlog.trans hx

theorem lt_two_zpow_log2 (hx : x < n + 1) : x * 2 ^ E < 2 ^ ((n.log2 : Int) + 1 + E) := by
  have hE : (0 : ℚ) < 2 ^ E := by positivity
  have hlog : (n : ℚ) + 1 ≤ ((2 ^ (n.log2 + 1) : Nat) : ℚ) := by exact_mod_cast Nat.lt_log2_self
  have := two_zpow_add (n.log2 + 1) E
  push_cast at hlog this
  rw [this]
  gcongr
  linarith

/-- The grid that is chosen for a number is that of the double that it rounds to, unless that
double is a power of two and the number lies below it. -/
theorem gridOf_of_roundsTo (hp : IsProper m e) (hlow : (n : ℚ) ≤ x) (hhigh : x < n + 1)
    (hgrid : E ≤ gridOf n E) (hr : RoundsTo m e (x * 2 ^ E)) :
    gridOf n E = e ∨ gridOf n E = e - 1 ∧ m = 2 ^ 52 ∧ -1074 < e ∧ x * 2 ^ E < 2 ^ (52 + e) := by
  have hbelow := lt_two_zpow_log2 (E := E) hhigh
  have habove := hr.lt hp
  rcases eq_or_ne n 0 with rfl | hn
  · -- nothing but the bits after the mantissa: the least double
    simp only [gridOf, Nat.log2_zero, Nat.cast_zero] at hgrid hbelow ⊢
    left
    rcases hp.full with hm | he
    · have := lt_of_two_zpow_lt ((hr.ge hm).trans_lt hbelow)
      have := hp.least
      omega
    · omega
  · have hL := lt_of_two_zpow_lt ((two_zpow_log2_le hn hlow).trans_lt habove)
    simp only [gridOf]
    -- below the least exponent there is no finer grid
    rcases eq_or_ne e (-1074) with he | he
    · left
      omega
    have hm := hp.full.resolve_right he
    have hle := lt_of_two_zpow_lt ((hr.ge hm).trans_lt hbelow)
    have := hp.least
    -- the least full mantissa may have been rounded up to, from the finer grid below it
    rcases hm.eq_or_lt with hm | hm
    · rcases lt_or_ge (x * 2 ^ E) (2 ^ (52 + e)) with hlt | hge
      · have := lt_of_two_zpow_lt ((two_zpow_log2_le hn hlow).trans_lt hlt)
        exact .inr ⟨by omega, hm.symm, by omega, hlt⟩
      · have := lt_of_two_zpow_lt (hge.trans_lt hbelow)
        left
        omega
    · have := lt_of_two_zpow_lt ((hr.ge_of_lt hm).trans_lt hbelow)
      left
      omega

/-- Going to the grid of a number is a shift to the right if the grid is coarser. -/
theorem shiftToTargetExponent_eq (acc : Accuracy) (hgrid : E ≤ gridOf n E) :
    shiftToTargetExponent .binary64 n E acc =
      (ExtendedMantissa.ofMantissaAndAccuracy n acc >>> (gridOf n E - E).toNat, gridOf n E) := by
  simp only [shiftToTargetExponent, shiftToExponent, targetExponent_eq]
  congr 1
  omega

/-- What stands for a number is shifted to the chosen grid without loss. -/
theorem stands_shifted {acc : Accuracy} (hx : Stands (.ofMantissaAndAccuracy n acc) x) {g : Int}
    (hg : E ≤ g) :
    Stands (ExtendedMantissa.ofMantissaAndAccuracy n acc >>> (g - E).toNat)
      (x * 2 ^ E / 2 ^ g) := by
  have hsize : x * 2 ^ E / 2 ^ g = x / 2 ^ (g - E).toNat := by
    have hE : ((g - E).toNat : Int) = g - E := Int.toNat_of_nonneg (by omega)
    rw [← zpow_natCast, hE, zpow_sub₀ two_ne_zero]
    field_simp
  rw [hsize]
  exact hx.shiftRight _

/-- How rounding goes on with the integer that it has found on the grid. -/
theorem roundWithAccuracy_of_shifted {acc : Accuracy} {s : Sign} {r r' : ExtendedMantissa}
    {g g' : Int} {k : Nat} (h : shiftToTargetExponent .binary64 n E acc = (r, g))
    (hk : r.roundedMantissa = k)
    (h' : shiftToTargetExponent .binary64 k g .exact = (r', g')) (hr : 0 < r'.mantissa) :
    roundWithAccuracy .binary64 s n E acc = .finite s r'.mantissa g' hr := by
  simp only [roundWithAccuracy, h, hk, h']
  exact dif_neg hr.ne'

/-- A proper mantissa is on its grid already. -/
theorem shiftToTargetExponent_of_isProper (hp : IsProper m e) :
    shiftToTargetExponent .binary64 m e .exact = (⟨m, false, false⟩, e) := by
  have hlog : m.log2 < 53 := (Nat.log2_lt hp.pos.ne').mpr hp.lt
  have hg : gridOf m e - e ≤ 0 := by
    have := hp.least
    simp only [gridOf]
    omega
  simp only [shiftToTargetExponent, shiftToExponent, targetExponent_eq, Int.toNat_of_nonpos hg]
  simp [ExtendedMantissa.ofMantissaAndAccuracy]
  rfl

/-- A mantissa that has grown by one bit goes to the next grid. -/
theorem shiftToTargetExponent_two_pow (he : -1074 < e) :
    shiftToTargetExponent .binary64 (2 ^ 53) (e - 1) .exact = (⟨2 ^ 52, false, false⟩, e) := by
  have hg : gridOf (2 ^ 53) (e - 1) = e := by
    simp only [gridOf, Nat.log2_two_pow]
    omega
  simp only [shiftToTargetExponent, shiftToExponent, targetExponent_eq, hg]
  simp [ExtendedMantissa.ofMantissaAndAccuracy]
  rfl

/-- Just below a power of two the nearest integer on the finer grid is that power. -/
theorem isNearest_of_below (hr : RoundsTo (2 ^ 52) e v) (he : -1074 < e) (hlt : v < 2 ^ (52 + e)) :
    IsNearest (2 ^ 53) (v / 2 ^ (e - 1)) := by
  have hlow := hr.lowFull rfl he
  have hpos : (0 : ℚ) < 2 ^ (e - 1) := by positivity
  have hstep : (2 : ℚ) ^ e = 2 * 2 ^ (e - 1) := by
    rw [← zpow_one_add₀ two_ne_zero]
    congr 1
    omega
  rw [show (52 + e : Int) = (52 : Nat) + e by rfl, two_zpow_add, hstep] at hlt
  rw [hstep] at hlow
  refine ⟨?_, ?_, fun _ => by decide⟩
  · rw [le_div_iff₀ hpos]
    push_cast at hlow ⊢
    linarith
  · rw [div_le_iff₀ hpos]
    push_cast at hlow ⊢
    linarith

/-- Rounding gives the double to which a number rounds. -/
theorem roundWithAccuracy_eq {acc : Accuracy} (hp : IsProper m e)
    (hx : Stands (.ofMantissaAndAccuracy n acc) x) (hgrid : E ≤ gridOf n E)
    (hr : RoundsTo m e (x * 2 ^ E)) (s : Sign) :
    roundWithAccuracy .binary64 s n E acc = .finite s m e hp.pos := by
  have hbounds := bounds_of_stands hx
  have hnearest := isNearest_roundedMantissa (stands_shifted hx hgrid)
  have hshift := shiftToTargetExponent_eq acc hgrid
  rcases gridOf_of_roundsTo hp hbounds.1 hbounds.2 hgrid hr with hg | ⟨hg, rfl, he, hlt⟩
  · rw [hg] at hnearest hshift
    have hround := hnearest.unique (isNearest_of_roundsTo hr)
    exact roundWithAccuracy_of_shifted hshift hround (shiftToTargetExponent_of_isProper hp) hp.pos
  · rw [hg] at hnearest hshift
    have hround := hnearest.unique (isNearest_of_below hr he hlt)
    exact roundWithAccuracy_of_shifted hshift hround (shiftToTargetExponent_two_pow he) hp.pos

/-! ## Products and quotients -/

section Operations

variable {m₁ m₂ : Nat} {e₁ e₂ : Int} {s₁ s₂ : Sign} {h₁ : 0 < m₁} {h₂ : 0 < m₂}

theorem le_gridOf_of_le (hn : 2 ^ 52 ≤ n) : E ≤ gridOf n E := by
  have hlog : 52 ≤ n.log2 := (Nat.le_log2 (by omega)).mpr hn
  simp only [gridOf]
  omega

/-- A product without loss of size is rounded once. -/
theorem mul_eq (hp : IsProper m e) (hn : 2 ^ 52 ≤ m₁ * m₂)
    (hr : RoundsTo m e (m₁ * 2 ^ e₁ * (m₂ * 2 ^ e₂))) :
    mul .binary64 (.finite s₁ m₁ e₁ h₁) (.finite s₂ m₂ e₂ h₂) = .finite (s₁ * s₂) m e hp.pos := by
  have hsize : (m₁ * 2 ^ e₁ * (m₂ * 2 ^ e₂) : ℚ) = (m₁ * m₂ : Nat) * 2 ^ (e₁ + e₂) := by
    rw [zpow_add₀ two_ne_zero]
    push_cast
    ring
  rw [hsize] at hr
  exact roundWithAccuracy_eq hp (stands_exact _) (le_gridOf_of_le hn) hr _

/-- A quotient stands with its remainder for the fraction. -/
theorem stands_div (a : Nat) {b : Nat} (hb : 0 < b) :
    Stands (.ofMantissaAndAccuracy (a / b) (accuracyOfFraction (a % b) b)) (a / b) := by
  have hbq : (0 : ℚ) < b := by exact_mod_cast hb
  have ha : (a : ℚ) = b * (a / b : Nat) + (a % b : Nat) := by
    exact_mod_cast (Nat.div_add_mod a b).symm
  have hlt : ((a % b : Nat) : ℚ) < b := by exact_mod_cast Nat.mod_lt a hb
  generalize a / b = q at *
  generalize a % b = r at *
  have hsize : (a / b : ℚ) = q + r / b := by
    rw [ha]
    field_simp
  rw [hsize, accuracyOfFraction]
  split
  · next h =>
    simp [h, ExtendedMantissa.ofMantissaAndAccuracy, Stands]
  · next h =>
    have hr : (0 : ℚ) < r := by exact_mod_cast Nat.pos_of_ne_zero h
    -- below, at or above the middle of a step
    rcases hc : compare (2 * r) b with _ | _ | _
    · have hc : (2 * r : ℚ) < b := by exact_mod_cast Nat.compare_eq_lt.mp hc
      have hhalf : (r / b : ℚ) < 1 / 2 := (div_lt_iff₀ hbq).mpr (by linarith)
      exact ⟨lt_add_of_pos_right _ (by positivity), by linarith⟩
    · have hc : (2 * r : ℚ) = b := by exact_mod_cast Nat.compare_eq_eq.mp hc
      change (q + r / b : ℚ) = q + 1 / 2
      rw [← hc]
      field_simp
    · have hc : (b : ℚ) < 2 * r := by exact_mod_cast Nat.compare_eq_gt.mp hc
      have hhalf : (1 / 2 : ℚ) < r / b := (lt_div_iff₀ hbq).mpr (by linarith)
      have hone : (r / b : ℚ) < 1 := (div_lt_one hbq).mpr hlt
      exact ⟨by linarith, by linarith⟩

/-- A quotient that was computed with enough bits is fine enough for its grid. -/
theorem le_gridOf_div (hm₁ : 0 < m₁) (hm₂ : 0 < m₂) {k : Nat} {t : Int}
    (h : t ≤ -1074 ∨ m₂.log2 + 53 ≤ m₁.log2 + k) : t ≤ gridOf ((m₁ <<< k) / m₂) t := by
  rcases h with h | h
  · simp only [gridOf]
    omega
  · apply le_gridOf_of_le
    rw [Nat.le_div_iff_mul_le hm₂, Nat.shiftLeft_eq]
    calc 2 ^ 52 * m₂ ≤ 2 ^ 52 * 2 ^ (m₂.log2 + 1) := by gcongr; exact Nat.lt_log2_self.le
      _ = 2 ^ (m₂.log2 + 53) := by rw [← pow_add]; congr 1; omega
      _ ≤ 2 ^ (m₁.log2 + k) := Nat.pow_le_pow_right two_pos h
      _ = 2 ^ m₁.log2 * 2 ^ k := pow_add ..
      _ ≤ m₁ * 2 ^ k := by gcongr; exact Nat.log2_self_le hm₁.ne'

/-- A quotient is taken with enough bits for rounding it once. -/
theorem div_eq (hp : IsProper m e) (hr : RoundsTo m e (m₁ * 2 ^ e₁ / (m₂ * 2 ^ e₂))) :
    div .binary64 (.finite s₁ m₁ e₁ h₁) (.finite s₂ m₂ e₂ h₂) = .finite (s₁ / s₂) m e hp.pos := by
  obtain ⟨t, ht⟩ : ∃ t, t = min (e₁ - e₂)
      (max (m₁.log2 + 1 + e₁ - (m₂.log2 + 1 + e₂) - 53) (-1074)) := ⟨_, rfl⟩
  have hcore : divCore .binary64 m₁ e₁ m₂ e₂ =
      (m₁ <<< (e₁ - e₂ - t).toNat / m₂, t,
        accuracyOfFraction (m₁ <<< (e₁ - e₂ - t).toNat % m₂) m₂) := by
    rw [ht]
    rfl
  simp only [UnpackedFloat.div, hcore]
  apply roundWithAccuracy_eq hp (stands_div _ h₂) (le_gridOf_div h₁ h₂ (by omega))
  have hk : ((e₁ - e₂ - t).toNat : Int) = e₁ - e₂ - t := Int.toNat_of_nonneg (by omega)
  convert hr using 1
  rw [Nat.shiftLeft_eq]
  push_cast
  rw [← zpow_natCast, hk, zpow_sub₀ two_ne_zero, zpow_sub₀ two_ne_zero]
  field_simp

end Operations

/-! ## Decimals -/

theorem RoundsTo.pos (hp : IsProper m e) (h : RoundsTo m e v) : 0 < v := by
  have hm : (1 : ℚ) ≤ m := by exact_mod_cast hp.pos
  have he : (0 : ℚ) < 2 ^ e := by positivity
  exact lt_of_lt_of_le (mul_pos (by linarith) he) h.low

theorem RoundsTo.lt_most (hp : IsProper m e) (h : RoundsTo m e v) : v < 2 ^ (1024 : Int) :=
  (h.lt hp).trans_le (zpow_le_zpow_right₀ one_le_two (by have := hp.most; omega))

theorem RoundsTo.least_le (hp : IsProper m e) (h : RoundsTo m e v) : 2 ^ (-1075 : Int) ≤ v := by
  have hm : (1 : ℚ) ≤ m := by exact_mod_cast hp.pos
  have he : (2 : ℚ) ^ (-1074 : Int) ≤ 2 ^ e := zpow_le_zpow_right₀ one_le_two hp.least
  calc (2 : ℚ) ^ (-1075 : Int) = 1 / 2 * 2 ^ (-1074 : Int) := by
        rw [show (-1075 : Int) = -1 + -1074 by rfl, zpow_add₀ two_ne_zero, zpow_neg_one, one_div]
    _ ≤ (m - 1 / 2) * 2 ^ e := mul_le_mul (by linarith) he (by positivity) (by linarith)
    _ ≤ v := h.low

theorem le_ten_pow (k : Nat) : (2 : ℚ) ^ k ≤ 10 ^ k := by gcongr; norm_num

/-- A decimal that rounds to a double has an exponent that is not too large. -/
theorem exponent_lt (hp : IsProper m e) (hr : RoundsTo m e (n * 10 ^ E)) (hn : n ≠ 0) :
    E < 1024 := by
  rcases lt_or_ge E 0 with hE | hE
  · omega
  obtain ⟨k, rfl⟩ := Int.eq_ofNat_of_zero_le hE
  have hn : (1 : ℚ) ≤ n := by exact_mod_cast Nat.one_le_iff_ne_zero.mpr hn
  apply lt_of_two_zpow_lt
  calc (2 : ℚ) ^ (k : Int) ≤ 10 ^ (k : Int) := by exact_mod_cast le_ten_pow k
    _ ≤ n * 10 ^ (k : Int) := le_mul_of_one_le_left (by positivity) hn
    _ < 2 ^ (1024 : Int) := hr.lt_most hp

/-- A decimal that rounds to a double has an exponent that is not too small for its digits. -/
theorem lt_exponent (hp : IsProper m e) (hr : RoundsTo m e (n * 10 ^ E)) :
    -(1076 + n.log2) < E := by
  rcases lt_or_ge E 0 with hE | hE
  · obtain ⟨k, hk⟩ := Int.eq_ofNat_of_zero_le (Int.neg_nonneg.mpr hE.le)
    obtain rfl : E = -(k : Int) := by omega
    have hlog : (n : ℚ) < 2 ^ (n.log2 + 1) := by exact_mod_cast Nat.lt_log2_self
    have : (2 : ℚ) ^ (-1075 : Int) < 2 ^ (((n.log2 + 1 : Nat) : Int) + -(k : Int)) := by
      calc (2 : ℚ) ^ (-1075 : Int) ≤ n * 10 ^ (-(k : Int)) := hr.least_le hp
        _ < 2 ^ (n.log2 + 1) * 10 ^ (-(k : Int)) := by gcongr
        _ ≤ 2 ^ (n.log2 + 1) * 2 ^ (-(k : Int)) := by
          rw [zpow_neg, zpow_neg, zpow_natCast, zpow_natCast]
          gcongr
          norm_num
        _ = _ := (two_zpow_add ..).symm
    have := lt_of_two_zpow_lt this
    omega
  · omega

/-- The double that a decimal rounds to. -/
theorem ofScientific_eq (hp : IsProper m e) (hr : RoundsTo m e (n * 10 ^ E)) :
    UnpackedFloat.ofScientific .binary64 n E = .finite .positive m e hp.pos := by
  have hn : n ≠ 0 := by
    rintro rfl
    simpa using hr.pos hp
  have hmost := exponent_lt hp hr hn
  have hleast := lt_exponent hp hr
  rw [UnpackedFloat.ofScientific, dif_neg hn, if_neg (by simp; omega), if_neg (by simp; omega)]
  -- a negative power divides, and another one multiplies
  rcases lt_or_ge E 0 with hE | hE
  · obtain ⟨k, hk⟩ := Int.eq_ofNat_of_zero_le (Int.neg_nonneg.mpr hE.le)
    obtain rfl : E = -(k : Int) := by omega
    rw [if_neg (by omega)]
    apply div_eq hp
    convert hr using 1
    simp [div_eq_mul_inv]
  · obtain ⟨k, rfl⟩ := Int.eq_ofNat_of_zero_le hE
    rw [if_pos hE]
    apply mul_eq hp
    · calc 2 ^ 52 ≤ 1 * 2 ^ 53 * 1 := by norm_num
        _ ≤ n * 2 ^ 53 * 10 ^ k := by
          gcongr
          · exact Nat.one_le_iff_ne_zero.mpr hn
          · exact Nat.one_le_pow _ _ (by decide)
        _ = n <<< 53 * 10 ^ k := by rw [Nat.shiftLeft_eq]
    · convert hr using 1
      simp only [Nat.shiftLeft_eq, Int.toNat_natCast, zpow_natCast, zpow_zero, mul_one,
        Nat.cast_mul, Nat.cast_pow, Nat.cast_ofNat]
      rw [zpow_neg, zpow_natCast, mul_inv_cancel_right₀ (by positivity)]

end Grid

end Raml.Decimal
