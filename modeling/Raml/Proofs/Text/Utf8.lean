import Mathlib.Tactic.Common
import Raml.Text.Utf8

/-!
# Texts as bytes

A character is written as one to four bytes. The first one tells how many there are and which range
the second one is in; each of the others adds six bits. Reading them back gives the character, and
goes on after them (`exists_decodeFrom_encodeChar`).
-/

namespace Raml.Text.Utf8

theorem continue?_zero (low high number taken : Nat) (bs : List UInt8) :
    continue? 0 low high number taken bs = .ok (number, bs) := by
  cases bs <;> rfl

theorem toNat_ofNat {k : Nat} (hk : k < 0x100) : (UInt8.ofNat k).toNat = k := Nat.mod_eq_of_lt hk

/-- A byte that goes on with a character adds six bits to its number. -/
theorem continue?_succ {low high k : Nat} (hk : k < 64) (hlow : low ≤ 0x80 + k)
    (hhigh : 0x80 + k ≤ high)
    (need number taken : Nat) (bs : List UInt8) :
    continue? (need + 1) low high number taken (UInt8.ofNat (0x80 + k) :: bs) =
      continue? need 0x80 0xbf (number * 64 + k) (taken + 1) bs := by
  have hb : (UInt8.ofNat (0x80 + k)).toNat = 0x80 + k := toNat_ofNat (by omega)
  rw [continue?, hb, if_pos (by simp only [Bool.and_eq_true, decide_eq_true_eq]; omega),
    Nat.add_sub_cancel_left]

/-- A character is decoded from its lead and what goes with it, and decoding goes on after that. -/
theorem decodeFrom_cons {b : UInt8} {rest after : List UInt8} {need bits low high n : Nat}
    (hlead : lead? b = some (need, bits, low, high))
    (hcontinue : continue? need low high bits 1 rest = .ok (n, after)) (position : Nat) :
    decodeFrom position (b :: rest) =
      (decodeFrom (position + need + 1) after).map (Char.ofNat n :: ·) := by
  rw [decodeFrom]
  simp only [hlead]
  split
  · next h =>
    rw [hcontinue] at h
    cases h
  · next h =>
    rw [hcontinue] at h
    cases h
    rfl

section Lead

variable {k : Nat}

theorem lead?_one (h : k < 0x80) : lead? (UInt8.ofNat k) = some (0, k, 0x80, 0xbf) := by
  simp only [lead?, toNat_ofNat (by omega : k < 0x100)]
  rw [if_pos h]

theorem lead?_two (hlow : 2 ≤ k) (hhigh : k < 32) :
    lead? (UInt8.ofNat (0xc0 + k)) = some (1, k, 0x80, 0xbf) := by
  simp only [lead?, toNat_ofNat (by omega : 0xc0 + k < 0x100)]
  rw [if_neg (by omega), if_pos (by simp; omega), Nat.add_sub_cancel_left]

/-- The range after the first of three bytes leaves out longer forms and surrogates. -/
theorem lead?_three : ∀ k < 16, lead? (UInt8.ofNat (0xe0 + k)) =
    some (2, k, if k = 0 then 0xa0 else 0x80, if k = 13 then 0x9f else 0xbf) := by
  decide

/-- The range after the first of four bytes leaves out longer forms and what is no code point. -/
theorem lead?_four : ∀ k < 5, lead? (UInt8.ofNat (0xf0 + k)) =
    some (3, k, if k = 0 then 0x90 else 0x80, if k = 4 then 0x8f else 0xbf) := by
  decide

end Lead

/-- The bytes of a character are read as the character. -/
theorem exists_decodeFrom_encodeChar (c : Char) (rest : List UInt8) (position : Nat) :
    ∃ next, decodeFrom position (encodeChar c ++ rest) = (decodeFrom next rest).map (c :: ·) := by
  have hvalid : c.toNat < 0xd800 ∨ 0xdfff < c.toNat ∧ c.toNat < 0x110000 := c.valid
  have hchar : Char.ofNat c.toNat = c := Char.ofNat_toNat c
  simp only [encodeChar, Nat.pow_eq, Nat.pow_zero, Nat.div_one, Nat.reducePow]
  generalize c.toNat = n at *
  subst hchar
  -- one byte to four, by the size of the code point
  split
  · next h =>
    exact ⟨_, decodeFrom_cons (lead?_one h) (continue?_zero ..) position⟩
  split
  · next h =>
    refine ⟨_, decodeFrom_cons (lead?_two (by omega) (by omega)) (n := n) ?_ position⟩
    change continue? 1 _ _ _ _ (_ :: rest) = _
    rw [continue?_succ (by omega) (by omega) (by omega), continue?_zero]
    congr 2
    omega
  split
  · next h =>
    refine ⟨_, decodeFrom_cons (lead?_three _ (by omega)) (n := n) ?_ position⟩
    change continue? 2 _ _ _ _ (_ :: _ :: rest) = _
    rw [continue?_succ (by omega) (by split <;> omega) (by split <;> omega),
      continue?_succ (by omega) (by omega) (by omega), continue?_zero]
    congr 2
    omega
  · next h =>
    refine ⟨_, decodeFrom_cons (lead?_four _ (by omega)) (n := n) ?_ position⟩
    change continue? 3 _ _ _ _ (_ :: _ :: _ :: rest) = _
    rw [continue?_succ (by omega) (by split <;> omega) (by split <;> omega),
      continue?_succ (by omega) (by omega) (by omega),
      continue?_succ (by omega) (by omega) (by omega),
      continue?_zero]
    congr 2
    omega

/-- What was encoded is decoded again. -/
theorem decodeFrom_flatMap (cs : List Char) (position : Nat) :
    decodeFrom position (cs.flatMap encodeChar) = .ok cs := by
  induction cs generalizing position with
  | nil =>
    rw [List.flatMap_nil, decodeFrom]
  | cons c cs ih =>
    obtain ⟨next, h⟩ := exists_decodeFrom_encodeChar c (cs.flatMap encodeChar) position
    rw [List.flatMap_cons, h, ih]
    rfl

/-- A text is read from the bytes that it is written as. -/
theorem decode_encode (s : String) : decode (encode s) = .ok s := by
  rw [decode, encode, decodeFrom_flatMap]
  simp [Except.map]

end Raml.Text.Utf8
