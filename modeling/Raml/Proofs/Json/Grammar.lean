import Raml.Proofs.Json.Written

/-!
# The grammar of JSON

`Derives` is the grammar, one constructor for each form that a value, the items of an array or the
members of an object can have. No name of a double that is no number is among them: in
a text of the grammar every capital letter that such a name begins with stands between quotes
(`Derives.quiet`).

The quotes are told apart by going along the text: `bare` keeps the characters that stand outside of
them. It takes a text apart at any place where no quotes are open, so a name that is written there
stays in sight however much is written around it.
-/

namespace Raml.Json

open Numeral

/-! ## Single values -/

/-- Whether a character is a hexadecimal digit. -/
def IsHex (c : Char) : Prop := isFigure c = true ∨ c ∈ "abcdefABCDEF".toList

instance (c : Char) : Decidable (IsHex c) := inferInstanceAs (Decidable (_ ∨ _))

/-- What stands between the quotes of a text. -/
inductive AreChars : List Char → Prop where
  | nil : AreChars []
  | plain {c : Char} {cs : List Char} (hcontrol : ' ' ≤ c) (hquote : c ≠ '"') (hslash : c ≠ '\\')
      (h : AreChars cs) : AreChars (c :: cs)
  | named {c : Char} {cs : List Char} (hname : c ∈ ['"', '\\', '/', 'b', 'f', 'n', 'r', 't'])
      (h : AreChars cs) : AreChars ('\\' :: c :: cs)
  | numbered {a b c d : Char} {cs : List Char} (ha : IsHex a) (hb : IsHex b) (hc : IsHex c)
      (hd : IsHex d) (h : AreChars cs) : AreChars ('\\' :: 'u' :: a :: b :: c :: d :: cs)

/-- A text in quotes. -/
def IsQuoted (cs : List Char) : Prop := ∃ inner, AreChars inner ∧ cs = '"' :: inner ++ ['"']

/-- A fraction, or nothing. -/
def IsFraction (cs : List Char) : Prop :=
  cs = [] ∨ ∃ figures, AreFigures figures ∧ figures ≠ [] ∧ cs = '.' :: figures

/-- An exponent, or nothing. -/
def IsPower (cs : List Char) : Prop :=
  cs = [] ∨ ∃ e sign figures, (e = 'e' ∨ e = 'E') ∧ (sign = [] ∨ sign = ['+'] ∨ sign = ['-']) ∧
    AreFigures figures ∧ figures ≠ [] ∧ cs = e :: (sign ++ figures)

/-- A number: a minus or nothing, a nought alone or figures that do not begin with one, a fraction
and an exponent. -/
def IsNumber (cs : List Char) : Prop :=
  ∃ negative w f e, IsWhole w ∧ IsFraction f ∧ IsPower e ∧ cs = signText negative ++ (w ++ (f ++ e))

/-! ## Values -/

/-- What the grammar tells the forms of. -/
inductive Form where
  | value
  /-- The values of an array, with commas between them. -/
  | items
  /-- The members of an object, with commas between them. -/
  | members

/-- The grammar of JSON. -/
inductive Derives : Form → List Char → Prop where
  | word {cs : List Char} (h : cs ∈ ["false".toList, "null".toList, "true".toList]) :
      Derives .value cs
  | number {cs : List Char} (h : IsNumber cs) : Derives .value cs
  | text {cs : List Char} (h : IsQuoted cs) : Derives .value cs
  | noItems {b : List Char} (hb : AreBlanks b) : Derives .value ('[' :: (b ++ [']']))
  | array {cs : List Char} (h : Derives .items cs) : Derives .value ('[' :: (cs ++ [']']))
  | noMembers {b : List Char} (hb : AreBlanks b) : Derives .value ('\x7b' :: (b ++ ['\x7d']))
  | object {cs : List Char} (h : Derives .members cs) : Derives .value ('\x7b' :: (cs ++ ['\x7d']))
  | item {b v b' : List Char} (hb : AreBlanks b) (hv : Derives .value v) (hb' : AreBlanks b') :
      Derives .items (b ++ (v ++ b'))
  | nextItem {b v b' cs : List Char} (hb : AreBlanks b) (hv : Derives .value v)
      (hb' : AreBlanks b') (h : Derives .items cs) : Derives .items (b ++ (v ++ (b' ++ ',' :: cs)))
  | member {b k b₁ b₂ v b' : List Char} (hb : AreBlanks b) (hk : IsQuoted k) (hb₁ : AreBlanks b₁)
      (hb₂ : AreBlanks b₂) (hv : Derives .value v) (hb' : AreBlanks b') :
      Derives .members (b ++ (k ++ (b₁ ++ ':' :: (b₂ ++ (v ++ b')))))
  | nextMember {b k b₁ b₂ v b' cs : List Char} (hb : AreBlanks b) (hk : IsQuoted k)
      (hb₁ : AreBlanks b₁) (hb₂ : AreBlanks b₂) (hv : Derives .value v) (hb' : AreBlanks b')
      (h : Derives .members cs) :
      Derives .members (b ++ (k ++ (b₁ ++ ':' :: (b₂ ++ (v ++ (b' ++ ',' :: cs))))))

/-- Whether a text is one of JSON: a value, with blanks around it. -/
def IsJsonText (s : String) : Prop :=
  ∃ b v b', AreBlanks b ∧ Derives .value v ∧ AreBlanks b' ∧ s.toList = b ++ (v ++ b')

/-! ## Outside of quotes -/

/-- Where a place in a text is. -/
inductive Side where
  | outside
  | inside
  /-- After a backslash inside of quotes. -/
  | escaped
  deriving DecidableEq

/-- Where the place after a character is. -/
def Side.next : Side → Char → Side
  | .outside, c => if c = '"' then .inside else .outside
  | .inside, c => if c = '"' then .outside else if c = '\\' then .escaped else .inside
  | .escaped, _ => .inside

/-- Where the place after some characters is. -/
def Side.after (side : Side) (cs : List Char) : Side := cs.foldl Side.next side

/-- The characters outside of quotes. -/
def bare : Side → List Char → List Char
  | _, [] => []
  | side, c :: cs => (if side = .outside then [c] else []) ++ bare (side.next c) cs

theorem Side.after_append (side : Side) (cs ds : List Char) :
    side.after (cs ++ ds) = (side.after cs).after ds :=
  List.foldl_append

theorem bare_append (side : Side) (cs ds : List Char) :
    bare side (cs ++ ds) = bare side cs ++ bare (side.after cs) ds := by
  induction cs generalizing side with
  | nil => rfl
  | cons c cs ih =>
    rw [List.cons_append, bare, ih, bare, List.append_assoc]
    rfl

/-- A text that opens no quotes without closing them. -/
def IsClosed (cs : List Char) : Prop := Side.outside.after cs = .outside

/-- Texts whose quotes are all closed stay so side by side. -/
theorem IsClosed.append {cs ds : List Char} (hc : IsClosed cs) (hd : IsClosed ds) :
    IsClosed (cs ++ ds) := by
  unfold IsClosed at hc hd ⊢
  rw [Side.after_append, hc, hd]

/-- What is bare after closed quotes does not depend on what came before. -/
theorem IsClosed.bare_append {cs : List Char} (h : IsClosed cs) (ds : List Char) :
    bare .outside (cs ++ ds) = bare .outside cs ++ bare .outside ds := by
  unfold IsClosed at h
  rw [Json.bare_append, h]

theorem isClosed_of_notMem {cs : List Char} (h : '"' ∉ cs) : IsClosed cs := by
  induction cs with
  | nil => rfl
  | cons c cs ih =>
    have hc : Side.outside.next c = .outside := if_neg (List.ne_of_not_mem_cons h).symm
    unfold IsClosed Side.after
    rw [List.foldl_cons, hc]
    exact ih (List.not_mem_of_not_mem_cons h)

/-- A text without quotes is bare as a whole. -/
theorem bare_of_notMem {cs : List Char} (h : '"' ∉ cs) : bare .outside cs = cs := by
  induction cs with
  | nil => rfl
  | cons c cs ih =>
    have hc : Side.outside.next c = .outside := if_neg (List.ne_of_not_mem_cons h).symm
    rw [bare, if_pos rfl, hc, ih (List.not_mem_of_not_mem_cons h), List.singleton_append]

/-! ## Names of doubles that are no numbers -/

/-- The characters with which such names begin, but for a sign. -/
def isLoud (c : Char) : Bool := c == 'N' || c == 'I'

/-- Whether no such character stands outside of quotes, and all quotes are closed. -/
structure IsQuiet (cs : List Char) : Prop where
  closed : IsClosed cs
  bare : ∀ c ∈ bare .outside cs, isLoud c = false

namespace IsQuiet

variable {cs ds : List Char}

theorem append (hc : IsQuiet cs) (hd : IsQuiet ds) : IsQuiet (cs ++ ds) where
  closed := hc.closed.append hd.closed
  bare := by
    rw [hc.closed.bare_append, List.forall_mem_append]
    exact ⟨hc.bare, hd.bare⟩

theorem of_forall (h : ∀ c ∈ cs, c ≠ '"' ∧ isLoud c = false) : IsQuiet cs := by
  have hquote : '"' ∉ cs := fun hmem => (h _ hmem).1 rfl
  refine ⟨isClosed_of_notMem hquote, ?_⟩
  rw [bare_of_notMem hquote]
  exact fun c hc => (h c hc).2

theorem nil : IsQuiet [] := of_forall (List.forall_mem_nil _)

theorem single {c : Char} (hc : c ≠ '"' ∧ isLoud c = false) : IsQuiet [c] :=
  of_forall (List.forall_mem_singleton.mpr hc)

theorem cons {c : Char} (hc : c ≠ '"' ∧ isLoud c = false) (h : IsQuiet cs) : IsQuiet (c :: cs) :=
  (single hc).append h

end IsQuiet

/-! ### In the grammar -/

/-- Blanks are quiet. -/
theorem AreBlanks.quiet {cs : List Char} (h : AreBlanks cs) : IsQuiet cs := by
  refine .of_forall fun c hc => ?_
  have hblank := h c hc
  simp only [isBlank, Bool.or_eq_true, beq_iff_eq] at hblank
  rcases hblank with ((rfl | rfl) | rfl) | rfl <;> decide

theorem ne_of_isFigure {c : Char} (h : isFigure c = true) : c ≠ '"' ∧ isLoud c = false := by
  have hcode := isFigure_iff.mp h
  have hne (d : Char) (hd : d.toNat < 48 ∨ 57 < d.toNat) : c ≠ d := by
    rintro rfl
    omega
  have hn : c ≠ 'N' := hne _ (by decide)
  have hi : c ≠ 'I' := hne _ (by decide)
  refine ⟨hne _ (by decide), ?_⟩
  simp [isLoud, hn, hi]

theorem quiet_of_figures {cs : List Char} (h : AreFigures cs) : IsQuiet cs :=
  .of_forall fun c hc => ne_of_isFigure (h c hc)

/-- A number of the grammar is quiet, as its only letters are small or mark an exponent. -/
theorem IsNumber.quiet {cs : List Char} (h : IsNumber cs) : IsQuiet cs := by
  obtain ⟨negative, w, f, e, hw, hf, he, rfl⟩ := h
  have hsign : IsQuiet (signText negative) := by
    cases negative with
    | false => exact .nil
    | true => exact .single (by decide)
  have hfraction : IsQuiet f := by
    rcases hf with rfl | ⟨figures, hfigures, -, rfl⟩
    · exact .nil
    · exact .cons (by decide) (quiet_of_figures hfigures)
  have hpower : IsQuiet e := by
    rcases he with rfl | ⟨letter, sign, figures, hletter, hsign, hfigures, -, rfl⟩
    · exact .nil
    · have hsign : IsQuiet sign := by
        rcases hsign with rfl | rfl | rfl
        · exact .nil
        · exact .single (by decide)
        · exact .single (by decide)
      refine .cons ?_ (hsign.append (quiet_of_figures hfigures))
      rcases hletter with rfl | rfl <;> decide
  exact hsign.append ((quiet_of_figures hw.figures).append (hfraction.append hpower))

theorem IsHex.ne {c : Char} (h : IsHex c) : c ≠ '"' ∧ c ≠ '\\' := by
  constructor
  · rintro rfl
    exact absurd h (by decide)
  · rintro rfl
    exact absurd h (by decide)

/-- Between its quotes a text opens none and closes none. -/
theorem AreChars.inside {cs : List Char} (h : AreChars cs) :
    Side.inside.after cs = .inside ∧ bare .inside cs = [] := by
  induction h with
  | nil => exact ⟨rfl, rfl⟩
  | @plain c cs hcontrol hquote hslash h ih =>
    have hc : Side.inside.next c = .inside := by
      simp [Side.next, hquote, hslash]
    rw [Side.after, List.foldl_cons, bare, hc]
    exact ih
  | named hname h ih => exact ih
  | @numbered a b c d cs ha hb hc hd h ih =>
    have hnumber : Side.inside.after ('\\' :: 'u' :: [a, b, c, d]) = .inside ∧
        bare .inside ('\\' :: 'u' :: [a, b, c, d]) = [] := by
      simp [Side.after, bare, Side.next, ha.ne, hb.ne, hc.ne, hd.ne]
    have hsplit : '\\' :: 'u' :: a :: b :: c :: d :: cs = '\\' :: 'u' :: [a, b, c, d] ++ cs := rfl
    rw [hsplit, Side.after_append, bare_append, hnumber.1, hnumber.2]
    exact ih

/-- A quoted text is quiet, whatever it holds. -/
theorem IsQuoted.quiet {cs : List Char} (h : IsQuoted cs) : IsQuiet cs := by
  obtain ⟨inner, hinner, rfl⟩ := h
  obtain ⟨hafter, hbare⟩ := hinner.inside
  have hopen : Side.outside.after ['"'] = .inside := rfl
  constructor
  · unfold IsClosed
    rw [← List.singleton_append, List.append_assoc, Side.after_append, Side.after_append, hopen,
      hafter]
    rfl
  · rw [← List.singleton_append, List.append_assoc, bare_append, bare_append, hopen, hafter, hbare]
    exact List.forall_mem_singleton.mpr (by decide)

/-- A text of the grammar has no such name in it, but in quotes. -/
theorem Derives.quiet {form : Form} {cs : List Char} (h : Derives form cs) : IsQuiet cs := by
  -- one case for each form; a part between quotes is closed, so its neighbours do not matter
  induction h with
  | word h =>
    have hwords : ∀ word ∈ ["false".toList, "null".toList, "true".toList],
        word.all (fun c => c != '"' && !isLoud c) = true := by decide
    have hword := hwords _ h
    simp only [List.all_eq_true, Bool.and_eq_true, bne_iff_ne, Bool.not_eq_true'] at hword
    exact .of_forall hword
  | number h => exact h.quiet
  | text h => exact h.quiet
  | noItems hb => exact .cons (by decide) (hb.quiet.append (.single (by decide)))
  | array h ih => exact .cons (by decide) (ih.append (.single (by decide)))
  | noMembers hb => exact .cons (by decide) (hb.quiet.append (.single (by decide)))
  | object h ih => exact .cons (by decide) (ih.append (.single (by decide)))
  | item hb hv hb' ih => exact hb.quiet.append (ih.append hb'.quiet)
  | nextItem hb hv hb' h ihv ih =>
    exact hb.quiet.append (ihv.append (hb'.quiet.append (.cons (by decide) ih)))
  | member hb hk hb₁ hb₂ hv hb' ih =>
    exact hb.quiet.append (hk.quiet.append (hb₁.quiet.append (.cons (by decide)
      (hb₂.quiet.append (ih.append hb'.quiet)))))
  | nextMember hb hk hb₁ hb₂ hv hb' h ihv ih =>
    exact hb.quiet.append (hk.quiet.append (hb₁.quiet.append (.cons (by decide)
      (hb₂.quiet.append (ihv.append (hb'.quiet.append (.cons (by decide) ih)))))))

end Raml.Json
