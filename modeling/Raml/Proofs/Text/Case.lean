import Mathlib.Data.List.Basic
import Raml.Text.Unicode.Case

/-!
# Plain letters in lower case

The lower case of a character is the character itself, or it is a small letter in place of the same
capital one. A text of plain characters has the lower case that each of them has.
-/

namespace Raml.Text

/-- What lower case makes of a character. -/
theorem toLower_cases (c : Char) : c.toLower = c ∨
    65 ≤ c.toNat ∧ c.toNat ≤ 90 ∧ c.toLower.toNat = c.toNat + 32 := by
  by_cases h : c.val ≥ 'A'.val ∧ c.val ≤ 'Z'.val
  · have hlow : 65 ≤ c.toNat := UInt32.le_iff_toNat_le.mp h.1
    have hhigh : c.toNat ≤ 90 := UInt32.le_iff_toNat_le.mp h.2
    have hmoved : c.toLower.val = c.val + 32 := congrArg Char.val (dif_pos h)
    have hsum : c.toLower.toNat = (c.toNat + 32) % 2 ^ 32 :=
      (congrArg UInt32.toNat hmoved).trans (UInt32.toNat_add ..)
    exact .inr ⟨hlow, hhigh, hsum.trans (Nat.mod_eq_of_lt (by omega))⟩
  · exact .inl (dif_neg h)

/-- Turning an ASCII letter into a small one does not lower its number. -/
theorem toNat_le_toLower (c : Char) : c.toNat ≤ c.toLower.toNat := by
  rcases toLower_cases c with hsame | ⟨-, -, hmoved⟩
  · exact Nat.le_of_eq (congrArg Char.toNat hsame.symm)
  · omega

namespace Unicode

/-- Among ASCII characters every letter is turned on its own. -/
theorem lowerFrom_of_ascii {cs : List Char} (h : ∀ c ∈ cs, c.toNat < 128) (before : List Char) :
    lowerFrom before cs = cs.map Char.toLower := by
  induction cs generalizing before with
  | nil => rfl
  | cons c cs ih =>
    obtain ⟨hc, hcs⟩ := List.forall_mem_cons.mp h
    have hsigma : c ≠ 'Σ' := by
      rintro rfl
      exact absurd hc (by decide)
    rw [lowerFrom, if_neg hsigma, lowerChar_of_ascii hc, ih hcs, List.map_cons]
    rfl

/-- A text whose plain lower case is all plain has no other lower case. -/
theorem toLower_of_ascii {s word : String} (hword : ∀ c ∈ word.toList, c.toNat < 128)
    (h : String.ofList (s.toList.map Char.toLower) = word) : toLower s = word := by
  subst h
  rw [String.toList_ofList, List.forall_mem_map] at hword
  have hplain : ∀ c ∈ s.toList, c.toNat < 128 :=
    fun c hc => Nat.lt_of_le_of_lt (toNat_le_toLower c) (hword c hc)
  rw [toLower, lowerChars, lowerFrom_of_ascii hplain]

end Unicode

end Raml.Text
