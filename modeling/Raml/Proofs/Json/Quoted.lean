import Mathlib
import Raml.Json.Reader
import Raml.Proofs.Outcome

/-!
# Texts written and read

Between quotes a text is read as units of sixteen bits, of which two may stand for one character. A
character is written as it is, by a short name, or by the numbers of its units. In each case it is
read as units that stand for it and for nothing else, whatever follows (`ofUnits_unitsIn`).
-/

namespace Raml.Json

/-! ## Units -/

theorem toNat_lt_or (c : Char) : c.toNat < 0xd800 ∨ 0xdfff < c.toNat ∧ c.toNat < 0x110000 := c.valid

theorem charOf_toNat (c : Char) : charOf c.toNat = c := by
  have := toNat_lt_or c
  have hlead : isLead c.toNat = false := by
    simp only [isLead, Bool.and_eq_false_iff, decide_eq_false_iff_not]
    omega
  have htrail : isTrail c.toNat = false := by
    simp only [isTrail, Bool.and_eq_false_iff, decide_eq_false_iff_not]
    omega
  simp [charOf, hlead, htrail]

/-- The unit of a character that takes one is no half of a pair. -/
theorem ofUnits_toNat (c : Char) (us : List Nat) : ofUnits (c.toNat :: us) = c :: ofUnits us := by
  have := toNat_lt_or c
  have hlead : isLead c.toNat = false := by
    simp only [isLead, Bool.and_eq_false_iff, decide_eq_false_iff_not]
    omega
  cases us with
  | nil => simp [ofUnits, charOf_toNat]
  | cons b us => simp [ofUnits, hlead, charOf_toNat]

/-- A character is put together again from its units. -/
theorem ofUnits_unitsOf (c : Char) (us : List Nat) :
    ofUnits (unitsOf c ++ us) = c :: ofUnits us := by
  have := toNat_lt_or c
  simp only [unitsOf]
  split
  · exact ofUnits_toNat c us
  · next h =>
    have hlead : isLead (0xd800 + (c.toNat - 0x10000) / 0x400) = true := by
      simp only [isLead, Bool.and_eq_true, decide_eq_true_eq]
      omega
    have htrail : isTrail (0xdc00 + (c.toNat - 0x10000) % 0x400) = true := by
      simp only [isTrail, Bool.and_eq_true, decide_eq_true_eq]
      omega
    have hjoined : 0x10000 + (0xd800 + (c.toNat - 0x10000) / 0x400 - 0xd800) * 0x400 +
        (0xdc00 + (c.toNat - 0x10000) % 0x400 - 0xdc00) = c.toNat := by omega
    simp only [List.cons_append, List.nil_append, ofUnits, hlead, htrail, Bool.and_self, if_true,
      hjoined, Char.ofNat_toNat]

theorem unitsOf_lt {c : Char} {n : Nat} (h : n ∈ unitsOf c) : n < 0x10000 := by
  have := toNat_lt_or c
  simp only [unitsOf] at h
  split at h
  · simp at h
    omega
  · simp at h
    omega

/-! ## Escapes -/

/-- A hexadecimal digit is read as what it was written for. -/
theorem digit?_hexDigit (n : Nat) : Numeral.digit? 16 (Text.Quoted.hexDigit n) = some (n % 16) := by
  have h : ∀ d < 16, Numeral.digit? 16 (Nat.digitChar d) = some d := by decide
  exact h _ (Nat.mod_lt _ (by decide))

/-- Four hexadecimal digits hold sixteen bits. -/
theorem natural?_hex {n : Nat} (h : n < 0x10000) :
    Numeral.natural? 16 (Text.Quoted.hex 4 n) = some n := by
  simp only [Text.Quoted.hex, List.nil_append, List.cons_append, Numeral.natural?,
    List.isEmpty_cons, Bool.false_eq_true, if_false, List.foldlM_cons, List.foldlM_nil,
    digit?_hexDigit, Option.map_some, Option.bind_eq_bind, Option.bind_some, Option.pure_def,
    Option.some.injEq]
  omega

theorem textUnits_figures (a b c d : Char) (rest : List Char) :
    textUnits ('\\' :: 'u' :: a :: b :: c :: d :: rest) =
      (Numeral.natural? 16 [a, b, c, d]).bind fun n =>
        (textUnits rest).bind fun p => some (n :: p.1, p.2) :=
  rfl

/-- A unit that was written in four digits is read again. -/
theorem textUnits_number {n : Nat} (h : n < 0x10000) (rest : List Char) :
    textUnits ('\\' :: 'u' :: Text.Quoted.hex 4 n ++ rest) =
      (textUnits rest).map fun p => (n :: p.1, p.2) := by
  have hnumber := natural?_hex h
  simp only [Text.Quoted.hex, List.nil_append, List.cons_append] at hnumber ⊢
  rw [textUnits_figures, hnumber]
  cases textUnits rest <;> rfl

theorem textUnits_flatMap_number {ns : List Nat} (h : ∀ n ∈ ns, n < 0x10000) (rest : List Char) :
    textUnits ((ns.flatMap fun n => '\\' :: 'u' :: Text.Quoted.hex 4 n) ++ rest) =
      (textUnits rest).map fun p => (ns ++ p.1, p.2) := by
  induction ns with
  | nil => simp
  | cons n ns ih =>
    rw [List.flatMap_cons, List.append_assoc, textUnits_number (h n List.mem_cons_self),
      ih fun m hm => h m (List.mem_cons_of_mem _ hm), Option.map_map]
    rfl

/-- A character with a short name is read by it. -/
theorem textUnits_named {c name : Char} (h : (c, name) ∈ shortNames) (rest : List Char) :
    textUnits ('\\' :: name :: rest) = (textUnits rest).map fun p => (c.toNat :: p.1, p.2) := by
  have hnames : ∀ e ∈ shortNames, e.2 ≠ 'u' ∧ namedChar? e.2 = some e.1 := by decide
  have hname : name ≠ 'u' ∧ namedChar? name = some c := hnames _ h
  rw [textUnits.eq_4 _ _ (fun a b c d rest hu _ => hname.1 hu), hname.2]
  cases textUnits rest <;> rfl

/-- A character that is not escaped is read as it is. -/
theorem textUnits_plain {c : Char} (hblank : ' ' ≤ c) (hquote : c ≠ '"') (hslash : c ≠ '\\')
    (rest : List Char) :
    textUnits (c :: rest) = (textUnits rest).map fun p => (c.toNat :: p.1, p.2) := by
  rw [textUnits.eq_5 _ _ hquote (fun _ _ _ _ _ h _ => hslash h) (fun _ _ h _ => hslash h),
    if_neg (by simp [hslash, hblank])]

/-- The units by which a character is written. -/
def unitsIn (a : Alphabet) (c : Char) : List Nat :=
  match shortNames.lookup c with
  | some _ => [c.toNat]
  | none => if a.has c then [c.toNat] else unitsOf c

/-- The units in which an alphabet writes a character stand for it. -/
theorem ofUnits_unitsIn (a : Alphabet) (c : Char) (us : List Nat) :
    ofUnits (unitsIn a c ++ us) = c :: ofUnits us := by
  unfold unitsIn
  split
  · exact ofUnits_toNat c us
  · split
    · exact ofUnits_toNat c us
    · exact ofUnits_unitsOf c us

/-- Alphabets in which no control stands as it is. -/
def Alphabet.EscapesControls (a : Alphabet) : Prop := ∀ c, a.has c = true → ' ' ≤ c

theorem Alphabet.escapesControls_unicode : Alphabet.unicode.EscapesControls := fun _ h => by
  simpa [Alphabet.unicode] using h

theorem Alphabet.escapesControls_ascii : Alphabet.ascii.EscapesControls := fun _ h => by
  simp [Alphabet.ascii] at h
  exact h.1

/-- What was written for a character is read as its units. -/
theorem textUnits_escape {a : Alphabet} (ha : a.EscapesControls) (c : Char) (rest : List Char) :
    textUnits (escape a c ++ rest) = (textUnits rest).map fun p => (unitsIn a c ++ p.1, p.2) := by
  cases h : shortNames.lookup c with
  | some name =>
    simp only [escape, unitsIn, h]
    exact textUnits_named (mem_of_lookup h) rest
  | none =>
    simp only [escape, unitsIn, h]
    split
    · next hc =>
      have hquote : c ≠ '"' := by
        rintro rfl
        cases h
      have hslash : c ≠ '\\' := by
        rintro rfl
        cases h
      exact textUnits_plain (ha c hc) hquote hslash rest
    · exact textUnits_flatMap_number (fun n hn => unitsOf_lt hn) rest

/-- What was written for some characters is read as their units, up to the quote that ends them. -/
theorem textUnits_flatMap_escape {a : Alphabet} (ha : a.EscapesControls) (cs rest : List Char) :
    textUnits (cs.flatMap (escape a) ++ '"' :: rest) = some (cs.flatMap (unitsIn a), rest) := by
  induction cs with
  | nil => rfl
  | cons c cs ih =>
    rw [List.flatMap_cons, List.append_assoc, textUnits_escape ha, ih]
    rfl

theorem ofUnits_flatMap_unitsIn (a : Alphabet) (cs : List Char) :
    ofUnits (cs.flatMap (unitsIn a)) = cs := by
  induction cs with
  | nil => rfl
  | cons c cs ih => rw [List.flatMap_cons, ofUnits_unitsIn, ih]

/-- A text is read as it was written. -/
theorem readText_quote {a : Alphabet} (ha : a.EscapesControls) (s : String) (rest : List Char) :
    readText (s.toList.flatMap (escape a) ++ '"' :: rest) = .ok (s, rest) := by
  rw [readText, textUnits_flatMap_escape ha]
  simp [ofUnits_flatMap_unitsIn]

end Raml.Json
