import Mathlib
import Raml.Decimal.Numeral
import Raml.Proofs.Decimal.Rounding

/-!
# Doubles and their parts

The class of a double holds the sign, the mantissa and the exponent that its bits tell. These are
the parts that the model of doubles unpacks (`unpack_eq`), and packing them loses nothing
(`unpack_pack`), so a double is known by its class (`eq_of_classify`). With that the reader of
decimals can be followed down to one product or quotient of doubles that is rounded once: a decimal
is read as the double to which it rounds (`toFloat_eq`).
-/

namespace Raml.Decimal

open Float.Model (Format UnpackedFloat totalExponent)
open Float.Model.UnpackedFloat

/-! ## The fields of a double -/

section Fields

variable (b : BitVec 64)

theorem unpackMantissa_toNat :
    (@unpackMantissa .binary64 b).toNat = b.toNat % 2 ^ 52 := by
  simp [unpackMantissa]

theorem unpackExponent_toNat :
    (@unpackExponent .binary64 b).toNat = b.toNat / 2 ^ 52 % 2 ^ 11 := by
  simp [unpackExponent, Nat.shiftRight_eq_div_pow]

theorem unpackSign_toNat :
    (@unpackSign .binary64 b).toNat = b.toNat / 2 ^ 63 % 2 := by
  simp [unpackSign, Nat.shiftRight_eq_div_pow]

end Fields

/-- The sign that is told by whether it is a minus. -/
def signOf (negative : Bool) : Sign := if negative then .negative else .positive

theorem ofBitVec_unpackSign (b : BitVec 64) :
    Sign.ofBitVec (@unpackSign .binary64 b) = signOf (b.toNat / 2 ^ 63 % 2 == 1) := by
  have h : @unpackSign .binary64 b = 0#1 ↔ b.toNat / 2 ^ 63 % 2 = 0 := by
    rw [← BitVec.toNat_inj, unpackSign_toNat]
    rfl
  obtain hn | hn : b.toNat / 2 ^ 63 % 2 = 0 ∨ b.toNat / 2 ^ 63 % 2 = 1 := by omega
  · rw [Sign.ofBitVec, if_pos (h.mpr hn), hn]
    rfl
  · rw [Sign.ofBitVec, if_neg (by rw [h]; omega), hn]
    rfl

/-- A leading one before the bits of a mantissa counts for all that they lack. -/
theorem toNat_one_append {k : Nat} (v : BitVec k) : (1#1 ++ v).toNat = 2 ^ k + v.toNat := by
  rw [BitVec.toNat_append, ← Nat.shiftLeft_add_eq_or_of_lt v.isLt]
  simp [Nat.shiftLeft_eq]

/-- The parts of a double are what the model of doubles has unpacked. -/
def unpackedOf : Class → UnpackedFloat
  | .notNumber => .notANumber
  | .infinite negative => .infinity (signOf negative)
  | .finite b =>
    if h : 0 < b.mantissa then .finite (signOf b.negative) b.mantissa b.exponent h
    else .zero (signOf b.negative)

theorem unpack_eq (b : BitVec 64) : unpack .binary64 b = unpackedOf (classOfBits b.toNat) := by
  have hexp (n : Nat) (hn : n < 2 ^ 11) :
      @unpackExponent .binary64 b = BitVec.ofNat 11 n ↔ b.toNat / 2 ^ 52 % 2 ^ 11 = n := by
    rw [← BitVec.toNat_inj, unpackExponent_toNat, BitVec.toNat_ofNat, Nat.mod_eq_of_lt hn]
  have hmant : @unpackMantissa .binary64 b = 0#52 ↔ b.toNat % 2 ^ 52 = 0 := by
    rw [← BitVec.toNat_inj, unpackMantissa_toNat]
    rfl
  have hones : @unpackExponent .binary64 b = -1#11 ↔ b.toNat / 2 ^ 52 % 2 ^ 11 = 2047 :=
    hexp 2047 (by decide)
  have hnone : @unpackExponent .binary64 b = 0#11 ↔ b.toNat / 2 ^ 52 % 2 ^ 11 = 0 :=
    hexp 0 (by decide)
  have htwo (n : Nat) : twoTo n = 2 ^ n := rfl
  -- both sides go by the exponent first, and then by the mantissa
  simp only [unpack, classOfBits, ofBitVec_unpackSign, htwo]
  split
  · next h =>
    rw [if_pos (hones.mp h)]
    split
    · next h' => rw [if_pos (hmant.mp h')]; rfl
    · next h' => rw [if_neg (hmant.not.mp h')]; rfl
  · next h =>
    rw [if_neg (hones.not.mp h)]
    split
    · next h' =>
      rw [if_pos (hnone.mp h')]
      split
      · next hm =>
        rw [unpackedOf, dif_neg (by simp only [hmant.mp hm, lt_irrefl, not_false_eq_true])]
      · next hm =>
        rw [unpackedOf, dif_pos (Nat.pos_of_ne_zero (hmant.not.mp hm)), UnpackedFloat.finite.injEq]
        refine ⟨rfl, unpackMantissa_toNat b, ?_⟩
        rw [h']
        rfl
    · next h' =>
      rw [if_neg (hnone.not.mp h'), unpackedOf, dif_pos (by simp only; omega),
        UnpackedFloat.finite.injEq]
      refine ⟨rfl, ?_, ?_⟩
      · rw [toNat_one_append, unpackMantissa_toNat]
      · rw [unpackExponent_toNat]
        rfl

/-- A double of the model is known by its bits. -/
theorem model_eq {a b : Float.Model} (h : a.toBits.toBitVec = b.toBits.toBitVec) : a = b := by
  obtain ⟨⟨_⟩, _⟩ := a
  obtain ⟨⟨_⟩, _⟩ := b
  cases h
  rfl

theorem float_eq {x y : Float} (h : x.toModel = y.toModel) : x = y := by
  cases x
  cases y
  exact congrArg Float.ofModel h

theorem pack_unpack (a : Float.Model) : .pack a.unpack = a :=
  model_eq (pack_unpack_of_valid a.valid)

/-- What unpacking says of a double is what its class says. -/
theorem unpack_toModel (x : Float) : x.toModel.unpack = unpackedOf (classify x) := unpack_eq _

/-- A double is what its class is packed to. -/
theorem toModel_eq (x : Float) : x.toModel = .pack (unpackedOf (classify x)) := by
  rw [← unpack_toModel, pack_unpack]

/-- A double is known by its class. -/
theorem eq_of_classify {x y : Float} (h : classify x = classify y) : x = y := by
  apply float_eq
  rw [toModel_eq, toModel_eq, h]

/-- What is packed from fields is unpacked by the kind that the exponent tells. -/
theorem unpack_packComponents_full (s : Sign) {k m : Nat} (hk : 0 < k) (hk' : k < 2047)
    (hm : 2 ^ 52 ≤ m) (hm' : m < 2 ^ 53) :
    unpack .binary64 (packComponents .binary64 s (.ofNat 11 k) (.ofNat 52 m)) =
      .finite s m (k - 1075) (by omega) := by
  have hexp : (BitVec.ofNat 11 k).toNat = k := Nat.mod_eq_of_lt (by omega)
  have hones : BitVec.ofNat 11 k ≠ -1#11 := fun h => by
    have h := congrArg BitVec.toNat h
    rw [hexp] at h
    exact absurd h (by simp; omega)
  have hnone : BitVec.ofNat 11 k ≠ 0#11 := fun h => by
    have h := congrArg BitVec.toNat h
    rw [hexp] at h
    exact absurd h (by simp; omega)
  simp only [unpack, unpackMantissa_packComponents, unpackExponent_packComponents,
    unpackSign_packComponents, Sign.ofBitVec_toBitVec, if_neg hones, if_neg hnone]
  rw [UnpackedFloat.finite.injEq, toNat_one_append, hexp, BitVec.toNat_ofNat]
  exact ⟨rfl, by omega, rfl⟩

theorem unpack_packComponents_small (s : Sign) {m : Nat} (hm : 0 < m) (hm' : m < 2 ^ 52) :
    unpack .binary64 (packComponents .binary64 s 0#11 (.ofNat 52 m)) = .finite s m (-1074) hm := by
  have hmant : (BitVec.ofNat 52 m).toNat = m := Nat.mod_eq_of_lt hm'
  have hnone : BitVec.ofNat 52 m ≠ 0#52 := fun h => by
    have h := congrArg BitVec.toNat h
    rw [hmant] at h
    exact absurd h (by simp; omega)
  simp only [unpack, unpackMantissa_packComponents, unpackExponent_packComponents,
    unpackSign_packComponents, Sign.ofBitVec_toBitVec, if_true, dif_neg hnone]
  rw [if_neg (by decide), UnpackedFloat.finite.injEq]
  exact ⟨rfl, hmant, rfl⟩

/-- How the parts of a double that is not too large are packed. -/
theorem pack_finite (s : Sign) {m k : Nat} (hm : 0 < m) (hk : k < 2047) :
    pack .binary64 (.finite s m (k - 1075) hm) =
      packComponents .binary64 s (if m.log2 = 52 then .ofNat 11 k else 0#11) (.ofNat 52 m) := by
  have hexp : ((k : Int) - 1075 + (Format.binary64.exponentBias : Nat) + (52 : Nat)).toNat = k := by
    have : Format.binary64.exponentBias = 1023 := rfl
    omega
  simp only [pack, hexp]
  rw [if_neg (by omega)]
  by_cases h : m.log2 = 52
  · rw [if_pos (by rw [h]; rfl), if_pos h]
  · rw [if_neg (fun h' => h (Nat.succ.inj h'.symm).symm), if_neg h]

/-- Nothing is lost when the parts of a double are packed. -/
theorem unpack_pack (s : Sign) {m : Nat} {e : Int} (hp : IsProper m e) :
    unpack .binary64 (pack .binary64 (.finite s m e hp.pos)) = .finite s m e hp.pos := by
  have hleast := hp.least
  have hmost := hp.most
  obtain ⟨k, rfl⟩ : ∃ k : Nat, e = k - 1075 := ⟨(e + 1075).toNat, by omega⟩
  rw [pack_finite s hp.pos (by omega)]
  rcases lt_or_ge m (2 ^ 52) with hm | hm
  · have hlog : m.log2 < 52 := (Nat.log2_lt hp.pos.ne').mpr hm
    have hk : (k : Int) - 1075 = -1074 := hp.full.resolve_left (by omega)
    rw [if_neg hlog.ne, unpack_packComponents_small s hp.pos hm, UnpackedFloat.finite.injEq]
    exact ⟨rfl, rfl, hk.symm⟩
  · have hlog : m.log2 = 52 := (Nat.log2_eq_iff hp.pos.ne').mpr ⟨hm, hp.lt⟩
    rw [if_pos hlog, unpack_packComponents_full s (by omega) (by omega) hm hp.lt]

/-- The parts that a double can have. -/
theorem isProper_of_classify {x : Float} {b : Binary} (h : classify x = .finite b)
    (hm : 0 < b.mantissa) : IsProper b.mantissa b.exponent := by
  rw [classify, classOfBits] at h
  have htwo (n : Nat) : twoTo n = 2 ^ n := rfl
  simp only [htwo] at h
  split at h
  · split at h <;> cases h
  · split at h
    · cases h
      exact ⟨hm, by simp only; omega, le_rfl, by simp only; omega, .inr rfl⟩
    · cases h
      exact ⟨hm, by simp only; omega, by simp only; omega, by simp only; omega,
        .inl (by simp only; omega)⟩

/-- A double that is nought has the least exponent. -/
theorem exponent_of_classify {x : Float} {b : Binary} (h : classify x = .finite b)
    (hm : b.mantissa = 0) : b.exponent = -1074 := by
  rw [classify, classOfBits] at h
  have htwo : 0 < twoTo 52 := Nat.pow_pos (by decide)
  split at h
  · split at h <;> cases h
  · split at h
    · cases h
      rfl
    · cases h
      simp only at hm
      omega

/-! ## Reading doubles -/

section Reading

variable {m n : Nat} {e : Int}

theorem unpack_of_classify {x : Float} {b : Binary} (h : classify x = .finite b)
    (hm : 0 < b.mantissa) :
    x.toModel.unpack = .finite (signOf b.negative) b.mantissa b.exponent hm := by
  rw [unpack_toModel, h, unpackedOf, dif_pos hm]

/-- A double rounds to itself. -/
theorem roundsTo_self (m : Nat) (e : Int) : RoundsTo m e (m * 2 ^ e) := by
  have he : (0 : ℚ) < 2 ^ e := by positivity
  exact ⟨by nlinarith, fun _ _ => by nlinarith, by nlinarith, by rintro (h | h) <;> nlinarith⟩

/-- A small integer is kept as such, of full width. -/
theorem exists_unpack_toFloat (hn : 0 < n) (hlt : n < 2 ^ 53) :
    ∃ (p : Nat) (q : Int) (hp : 0 < p),
      n.toUInt64.toFloat.toModel.unpack = .finite .positive p q hp ∧
      2 ^ 52 ≤ p ∧ (p : ℚ) * 2 ^ q = n := by
  obtain ⟨k, hk⟩ : ∃ k, n.log2 + k = 52 := ⟨52 - n.log2, by
    have := (Nat.log2_lt hn.ne').mpr hlt
    omega⟩
  -- moved on by `k` places the number fills the mantissa, and nothing is rounded
  have hlow : 2 ^ n.log2 * 2 ^ k ≤ n * 2 ^ k := Nat.mul_le_mul_right _ (Nat.log2_self_le hn.ne')
  have hhigh : n * 2 ^ k < 2 ^ (n.log2 + 1) * 2 ^ k :=
    Nat.mul_lt_mul_of_pos_right Nat.lt_log2_self (by positivity)
  rw [← pow_add] at hlow hhigh
  rw [hk] at hlow
  rw [show n.log2 + 1 + k = 53 by omega] at hhigh
  have hp : IsProper (n * 2 ^ k) (-(k : Int)) := ⟨by omega, hhigh, by omega, by omega, .inl hlow⟩
  have hround : UnpackedFloat.ofNat .binary64 n =
      .finite .positive (n * 2 ^ k) (-(k : Int)) hp.pos := by
    have hcompare : compare (n : Int) 0 = .gt := compare_gt_iff_gt.mpr (by omega)
    have hdown : decreaseExponent n 0 (Format.binary64.targetExponent (totalExponent n 0)) =
        (n * 2 ^ k, -(k : Int)) := by
      have hk : (0 - gridOf n 0).toNat = k := by
        simp only [gridOf]
        omega
      simp only [decreaseExponent, targetExponent_eq, hk, Nat.shiftLeft_eq]
      rw [Int.zero_sub]
    simp only [UnpackedFloat.ofNat, UnpackedFloat.ofInt, UnpackedFloat.normalize, hcompare,
      UnpackedFloat.round, Int.toNat_natCast, hdown]
    exact roundWithAccuracy_eq hp (stands_exact _) (le_gridOf_of_le hlow) (roundsTo_self ..) _
  refine ⟨n * 2 ^ k, -(k : Int), hp.pos, ?_, hlow, ?_⟩
  · have hmodel : n.toUInt64.toFloat.toModel =
        .pack (.finite .positive (n * 2 ^ k) (-(k : Int)) hp.pos) := by
      have hnat : n.toUInt64.toNat = n := Nat.mod_eq_of_lt (by omega)
      rw [← hround]
      change Float.Model.pack (UnpackedFloat.ofNat _ n.toUInt64.toNat) = _
      rw [hnat]
    rw [hmodel]
    exact unpack_pack .positive hp
  · push_cast
    rw [mul_assoc, zpow_neg, zpow_natCast, mul_inv_cancel₀ (by positivity), mul_one]

/-- The mantissa and the exponent that a power of ten has as a double of full width. -/
def powerMantissa (k : Nat) : Nat := 10 ^ k * 2 ^ 52 / 2 ^ (10 ^ k).log2
def powerExponent (k : Nat) : Int := (10 ^ k).log2 - 52

/-- The powers of ten that are doubles are kept as such. -/
theorem classify_power : ∀ k (hk : k < 23),
    classify (Float.exactlyRepresentablePowersOfTen[k]) =
      .finite ⟨false, powerMantissa k, powerExponent k⟩ ∧
    2 ^ 52 ≤ powerMantissa k ∧ powerMantissa k * 2 ^ (10 ^ k).log2 = 10 ^ k * 2 ^ 52 := by
  decide +kernel

/-- Each power of ten that is taken for exact is a double, and stands for that power. -/
theorem exists_unpack_power {k : Nat} (hk : k < 23) :
    ∃ (p : Nat) (q : Int) (hp : 0 < p),
      (Float.exactlyRepresentablePowersOfTen[k]).toModel.unpack = .finite .positive p q hp ∧
      2 ^ 52 ≤ p ∧ (p : ℚ) * 2 ^ q = 10 ^ k := by
  obtain ⟨hclass, hfull, hsize⟩ := classify_power k hk
  refine ⟨powerMantissa k, powerExponent k, by omega,
    unpack_of_classify hclass (by simp only; omega), hfull, ?_⟩
  have hsize : (powerMantissa k * 2 ^ (10 ^ k).log2 : ℚ) = 10 ^ k * 2 ^ 52 := by
    exact_mod_cast hsize
  rw [powerExponent, zpow_sub₀ two_ne_zero, zpow_natCast, ← mul_div_assoc, hsize]
  norm_num

/-- The double that is read for a decimal is the one that it rounds to. -/
theorem toModel_ofScientific (hp : IsProper m e) {negative : Bool} {k : Nat}
    (hr : RoundsTo m e (n * 10 ^ (if negative then -(k : Int) else k))) :
    (Float.ofScientific n negative k).toModel = .pack (.finite .positive m e hp.pos) := by
  have hn : n ≠ 0 := by
    rintro rfl
    simpa using hr.pos hp
  rw [Float.ofScientific]
  split
  · next h =>
    -- both numbers are doubles, and their quotient or product is rounded once
    obtain ⟨p, q, hpos, hunpack, hfull, hsize⟩ := exists_unpack_toFloat (Nat.pos_of_ne_zero hn) h.1
    obtain ⟨p', q', hpos', hunpack', hfull', hsize'⟩ := exists_unpack_power (Nat.lt_succ_of_le h.2)
    cases negative with
    | false =>
      have hmul : mul .binary64 (.finite .positive p q hpos) (.finite .positive p' q' hpos') =
          .finite .positive m e hp.pos :=
        mul_eq hp (by nlinarith) (by rw [hsize, hsize']; exact hr)
      exact congrArg Float.Model.pack ((congrArg₂ (mul .binary64) hunpack hunpack').trans hmul)
    | true =>
      have hdiv : div .binary64 (.finite .positive p q hpos) (.finite .positive p' q' hpos') =
          .finite .positive m e hp.pos :=
        div_eq hp (by rw [hsize, hsize']; simpa [div_eq_mul_inv] using hr)
      exact congrArg Float.Model.pack ((congrArg₂ (div .binary64) hunpack hunpack').trans hdiv)
  · cases negative with
    | false => exact congrArg Float.Model.pack (ofScientific_eq hp hr)
    | true =>
      have hk : Int.negOfNat k = -(k : Int) := Int.negOfNat_eq
      change Float.Model.pack (UnpackedFloat.ofScientific _ n (Int.negOfNat k)) = _
      rw [hk, ofScientific_eq hp (by simpa using hr)]

end Reading

/-- Turning the sign of a double turns it in its parts. -/
theorem toModel_neg {x : Float} {m : Nat} {e : Int} (hp : IsProper m e)
    (h : x.toModel = .pack (.finite .positive m e hp.pos)) :
    (-x).toModel = .pack (.finite .negative m e hp.pos) := by
  change Float.Model.pack (UnpackedFloat.neg x.toModel.unpack) = _
  rw [h]
  change Float.Model.pack (UnpackedFloat.neg (unpack .binary64 (pack .binary64 _))) = _
  rw [unpack_pack _ hp]
  rfl

theorem width_pos (n : Nat) : 0 < width n := Nat.length_toDigits_pos

theorem lt_ten_pow_width (n : Nat) : n < 10 ^ width n :=
  (Nat.length_toDigits_le_iff (by decide) (width_pos n)).mp le_rfl

/-- A number of some width has at least that many digits. -/
theorem ten_pow_le_of_lt_width {n k : Nat} (hn : n ≠ 0) (hk : k < width n) : 10 ^ k ≤ n := by
  rcases k.eq_zero_or_pos with rfl | hpos
  · exact Nat.one_le_iff_ne_zero.mpr hn
  · exact not_lt.mp ((Nat.length_toDigits_le_iff (by decide) hpos).not.mp (not_le.mpr hk))

theorem lt_of_ten_zpow_lt {a b : Int} (h : (10 : ℚ) ^ a < 10 ^ b) : a < b :=
  (zpow_lt_zpow_iff_right₀ (by norm_num)).mp h

section Range

variable {m n : Nat} {e E : Int}

/-- The largest and the smallest doubles, between powers of ten. -/
theorem two_pow_le_ten_pow :
    2 ^ 1024 ≤ 10 ^ 309 ∧ 2 ^ 1074 ≤ 10 ^ 400 ∧ 2 ^ 1075 ≤ 10 ^ 324 := by decide +kernel

/-- What rounds to a double has its leading digit in the range that is read. -/
theorem width_add_le (hp : IsProper m e) (hr : RoundsTo m e (n * 10 ^ E)) (hn : n ≠ 0) :
    (width n : Int) + E ≤ Numeral.widest := by
  have hpos := width_pos n
  have hdigits : (10 : ℚ) ^ (width n - 1) ≤ n := by
    exact_mod_cast ten_pow_le_of_lt_width hn (by omega : width n - 1 < width n)
  have hlt : (10 : ℚ) ^ ((width n - 1 : Nat) + E) < 10 ^ (309 : Int) := by
    calc (10 : ℚ) ^ ((width n - 1 : Nat) + E) = 10 ^ (width n - 1) * 10 ^ E := by
          rw [zpow_add₀ (by norm_num), zpow_natCast]
      _ ≤ n * 10 ^ E := by gcongr
      _ < 2 ^ (1024 : Int) := hr.lt_most hp
      _ ≤ 10 ^ (309 : Int) := by exact_mod_cast two_pow_le_ten_pow.1
  have := lt_of_ten_zpow_lt hlt
  simp only [Numeral.widest]
  omega

/-- What rounds to a double that is not nought is not too small to be read. -/
theorem le_width_add (hp : IsProper m e) (hr : RoundsTo m e (n * 10 ^ E)) :
    -Numeral.widest ≤ (width n : Int) + E := by
  have hdigits : (n : ℚ) < 10 ^ width n := by exact_mod_cast lt_ten_pow_width n
  have hlt : (10 : ℚ) ^ (-324 : Int) < 10 ^ (width n + E) := by
    calc (10 : ℚ) ^ (-324 : Int) ≤ 2 ^ (-1075 : Int) := by
          rw [zpow_neg, zpow_neg, inv_le_inv₀ (by positivity) (by positivity)]
          exact_mod_cast two_pow_le_ten_pow.2.2
      _ ≤ n * 10 ^ E := hr.least_le hp
      _ < 10 ^ width n * 10 ^ E := by gcongr
      _ = 10 ^ (width n + E) := by rw [zpow_add₀ (by norm_num), zpow_natCast]
  have := lt_of_ten_zpow_lt hlt
  simp only [Numeral.widest]
  omega

end Range

open Numeral in
/-- A decimal is read as the double that it rounds to. -/
theorem toFloat_eq {x : Float} {b : Binary} (h : classify x = .finite b) (hm : 0 < b.mantissa)
    {n : Nat} {e : Int} (hr : RoundsTo b.mantissa b.exponent (n * 10 ^ e)) :
    (Floating.finite b.negative n e).toFloat = x := by
  have hp := isProper_of_classify h hm
  have hn : n ≠ 0 := by
    rintro rfl
    simpa using hr.pos hp
  have hmost := width_add_le hp hr hn
  have hleast := le_width_add hp hr
  simp only [width] at hmost hleast
  -- the sign apart, a decimal is built by a division or by a product
  have hsize : (if e < 0 then Float.ofScientific n true (-e).toNat
      else Float.ofScientific n false e.toNat).toModel =
        .pack (.finite .positive b.mantissa b.exponent hm) := by
    split
    · exact toModel_ofScientific hp (by
        rw [if_pos rfl, Int.toNat_of_nonneg (by omega), Int.neg_neg]
        exact hr)
    · exact toModel_ofScientific hp (by
        rw [if_neg Bool.false_ne_true, Int.toNat_of_nonneg (by omega)]
        exact hr)
  -- the exponent is in the range where nothing is cut off
  have hmodel : (Floating.finite b.negative n e).toFloat.toModel =
      .pack (.finite (signOf b.negative) b.mantissa b.exponent hm) := by
    simp only [Floating.toFloat, hn, decide_false, Bool.false_or, decide_eq_true_eq,
      if_neg hmost.not_gt, if_neg hleast.not_gt]
    cases b.negative with
    | false => exact hsize
    | true => exact toModel_neg hp hsize
  apply float_eq
  rw [hmodel, toModel_eq x, h, unpackedOf, dif_pos hm]

end Raml.Decimal
