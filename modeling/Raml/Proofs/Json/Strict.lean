import Raml.Proofs.Json.Grammar
import Raml.Proofs.Value.Finite

/-!
# What is written and the grammar

Quotes, numbers, brackets and commas are written as the grammar has them, whatever the value. Only a
double that is no number is written as a name that the grammar does not know. So a value is written
as a text of JSON exactly if all doubles in it are finite (`isJsonText_write_iff`).

A text of the grammar could be many things, so for the other direction the name has to be found in
what is written. `Written` carries it along with the derivation: what is written either derives from
the grammar, or shows the first letter of the name outside of all quotes, and it closes its quotes,
so that what is written around it hides nothing.
-/

namespace Raml.Json

open Numeral Decimal

/-! ## Texts in quotes -/

variable {a : Alphabet}

theorem AreChars.append {cs ds : List Char} (hc : AreChars cs) (hd : AreChars ds) :
    AreChars (cs ++ ds) := by
  induction hc with
  | nil => exact hd
  | plain hcontrol hquote hslash h ih => exact .plain hcontrol hquote hslash ih
  | named hname h ih => exact .named hname ih
  | numbered ha hb hc hd h ih => exact .numbered ha hb hc hd ih

theorem isHex_hexDigit (n : Nat) : IsHex (Text.Quoted.hexDigit n) := by
  have hdigits : ∀ d < 16, IsHex (Nat.digitChar d) := by decide
  exact hdigits _ (Nat.mod_lt _ (by decide))

theorem areChars_numbers (ns : List Nat) :
    AreChars (ns.flatMap fun n => '\\' :: 'u' :: Text.Quoted.hex 4 n) := by
  induction ns with
  | nil => exact .nil
  | cons n ns ih =>
    rw [List.flatMap_cons]
    exact .numbered (isHex_hexDigit _) (isHex_hexDigit _) (isHex_hexDigit _) (isHex_hexDigit _) ih

/-- Whatever is written for a character may stand between quotes. -/
theorem areChars_escape (ha : a.EscapesControls) (c : Char) : AreChars (escape a c) := by
  unfold escape
  cases h : shortNames.lookup c with
  | some name =>
    have hnames : ∀ e ∈ shortNames, e.2 ∈ ['"', '\\', '/', 'b', 'f', 'n', 'r', 't'] := by decide
    exact .named (hnames _ (mem_of_lookup h)) .nil
  | none =>
    have hquote : c ≠ '"' := by
      rintro rfl
      cases h
    have hslash : c ≠ '\\' := by
      rintro rfl
      cases h
    dsimp only
    split
    · rename_i hc
      exact .plain (ha c hc) hquote hslash .nil
    · exact areChars_numbers _

/-- A quoted text is one of the grammar. -/
theorem isQuoted_quote (ha : a.EscapesControls) (s : String) : IsQuoted (quote a s).toList := by
  have hinner : AreChars (s.toList.flatMap (escape a)) := by
    induction s.toList with
    | nil => exact .nil
    | cons c cs ih =>
      rw [List.flatMap_cons]
      exact (areChars_escape ha c).append ih
  exact ⟨_, hinner, String.toList_ofList⟩

/-! ## Numbers -/

theorem isFraction_fractionText {f : List Char} (h : AreFigures f) :
    IsFraction (fractionText f) := by
  unfold fractionText
  split
  · exact .inl rfl
  · rename_i hne
    exact .inr ⟨f, h, hne, rfl⟩

theorem isPower_powerText (power : Option Int) : IsPower (powerText power) := by
  cases power with
  | none => exact .inl rfl
  | some e =>
    obtain ⟨digits, htext, hfigures, hne, -⟩ := exponentText_eq e
    rw [powerText, htext]
    split
    · exact .inr ⟨'e', ['-'], digits, .inl rfl, .inr (.inr rfl), hfigures, hne, rfl⟩
    · exact .inr ⟨'e', ['+'], digits, .inl rfl, .inr (.inl rfl), hfigures, hne, rfl⟩

theorem isNumber_toString (n : Int) : IsNumber (toString n).toList := by
  refine ⟨n < 0, _, [], [], isWhole_digitsOf n.natAbs, .inl rfl, .inl rfl, ?_⟩
  rw [toList_toString, List.append_nil, List.append_nil]

/-- A finite double is written as a number of the grammar. -/
theorem isNumber_ofFloat {x : Float} {b : Binary} (h : classify x = .finite b) :
    IsNumber (Decimal.ofFloat .json x).toList := by
  obtain ⟨cs, w, f, power, hwrite, htext⟩ := isText_write (digits_ofBinary h)
  rw [Decimal.ofFloat, h, String.toList_ofList, hwrite, htext.text]
  exact ⟨_, w, _, _, htext.whole, isFraction_fractionText htext.fraction, isPower_powerText power,
    rfl⟩

/-! ## Loud texts -/

/-- Whether a name of a double that is no number begins outside of quotes. -/
def IsLoud (cs : List Char) : Prop := ∃ c ∈ bare .outside cs, isLoud c = true

theorem not_isLoud {cs : List Char} (h : IsQuiet cs) : ¬IsLoud cs := by
  rintro ⟨c, hc, hloud⟩
  rw [h.bare c hc] at hloud
  cases hloud

/-- Something loud after closed quotes is loud. -/
theorem isLoud_append {cs : List Char} (h : IsClosed cs) (ds : List Char) :
    IsLoud (cs ++ ds) ↔ IsLoud cs ∨ IsLoud ds := by
  unfold IsLoud
  rw [h.bare_append]
  simp only [List.mem_append, or_and_right, exists_or]

/-- The name of a double that is no number. -/
theorem isLoud_ofFloat {x : Float} (h : x.isFinite = false) :
    IsClosed (Decimal.ofFloat .json x).toList ∧ IsLoud (Decimal.ofFloat .json x).toList := by
  unfold Decimal.ofFloat
  cases hclass : classify x with
  | notNumber => exact ⟨by rfl, 'N', by decide, rfl⟩
  | infinite negative => cases negative <;> exact ⟨by rfl, 'I', by decide, rfl⟩
  | finite b =>
    rw [isFinite_iff.mpr ⟨b, hclass⟩] at h
    cases h

/-! ## Between brackets -/

section Between

variable {sep : List Char} {ts : List (List Char)}

theorem isClosed_intercalate (hsep : IsClosed sep) (h : ∀ t ∈ ts, IsClosed t) :
    IsClosed (List.intercalate sep ts) := by
  induction ts with
  | nil => rfl
  | cons t ts ih =>
    rw [List.forall_mem_cons] at h
    cases ts with
    | nil =>
      rw [List.intercalate_singleton]
      exact h.1
    | cons u us =>
      rw [List.intercalate_cons_cons]
      exact (h.1.append hsep).append (ih h.2)

/-- A listing is loud if something in it is. -/
theorem isLoud_intercalate (hsep : IsClosed sep) (h : ∀ t ∈ ts, IsClosed t)
    (hloud : ∃ t ∈ ts, IsLoud t) : IsLoud (List.intercalate sep ts) := by
  induction ts with
  | nil =>
    obtain ⟨t, ht, -⟩ := hloud
    cases ht
  | cons t ts ih =>
    rw [List.forall_mem_cons] at h
    simp only [List.mem_cons, exists_eq_or_imp] at hloud
    cases ts with
    | nil =>
      rw [List.intercalate_singleton]
      exact hloud.resolve_right (by simp)
    | cons u us =>
      rw [List.intercalate_cons_cons, isLoud_append (h.1.append hsep), isLoud_append h.1]
      rcases hloud with hfirst | hrest
      · exact .inl (.inl hfirst)
      · exact .inr (ih h.2 hrest)

/-- Items on lines of their own are a sequence, if one item is and one more before a sequence is. -/
theorem sequence_intercalate {P Q : List Char → Prop} {b b' : List Char}
    (hlast : ∀ t, P t → Q (b ++ (t ++ b'))) (hnext : ∀ t cs, P t → Q cs → Q (b ++ (t ++ ',' :: cs)))
    (hne : ts ≠ []) (h : ∀ t ∈ ts, P t) : Q (b ++ (List.intercalate (',' :: b) ts ++ b')) := by
  induction ts with
  | nil => exact absurd rfl hne
  | cons t ts ih =>
    rw [List.forall_mem_cons] at h
    cases ts with
    | nil =>
      rw [List.intercalate_singleton]
      exact hlast t h.1
    | cons u us =>
      have hrest := hnext t _ h.1 (ih (List.cons_ne_nil _ _) h.2)
      rw [List.intercalate_cons_cons]
      simpa only [List.append_assoc, List.cons_append] using hrest

end Between

/-- A member of an object. -/
def IsMember (cs : List Char) : Prop :=
  ∃ k v, IsQuoted k ∧ Derives .value v ∧ cs = k ++ (':' :: ' ' :: v)

/-- Items with separators between them are items of the grammar. -/
theorem derives_items {b b' : List Char} (hb : AreBlanks b) (hb' : AreBlanks b')
    {ts : List (List Char)} (hne : ts ≠ []) (h : ∀ t ∈ ts, Derives .value t) :
    Derives .items (b ++ (List.intercalate (',' :: b) ts ++ b')) :=
  sequence_intercalate (fun _ ht => .item hb ht hb')
    (fun _ _ ht hcs => .nextItem hb ht (List.forall_mem_nil _) hcs) hne h

theorem derives_members {b b' : List Char} (hb : AreBlanks b) (hb' : AreBlanks b')
    {ts : List (List Char)} (hne : ts ≠ []) (h : ∀ t ∈ ts, IsMember t) :
    Derives .members (b ++ (List.intercalate (',' :: b) ts ++ b')) := by
  have hnone : AreBlanks [] := List.forall_mem_nil _
  have hblank : AreBlanks [' '] := List.forall_mem_singleton.mpr rfl
  refine sequence_intercalate (fun t ht => ?_) (fun t cs ht hcs => ?_) hne h
  · obtain ⟨k, v, hk, hv, rfl⟩ := ht
    simpa using Derives.member hb hk hnone hblank hv hb'
  · obtain ⟨k, v, hk, hv, rfl⟩ := ht
    simpa using Derives.nextMember hb hk hnone hblank hv hnone hcs

/-! ## Values -/

/-- How a value, or an entry with the value, is written where a text with `P` is wanted. -/
structure Written (P : List Char → Prop) (v : Value) (text : List Char) : Prop where
  closed : IsClosed text
  derives : v.IsFinite → P text
  loud : ¬v.IsFinite → IsLoud text

/-- Values that are written one by one. -/
def AreWritten (P : List Char → Prop) (vs : List Value) (texts : List String) : Prop :=
  List.Forall₂ (fun v t => Written P v t.toList) vs texts

section Written

variable {P : List Char → Prop} {v : Value} {vs : List Value} {texts : List String}

/-- A value in which nothing can be wrong. -/
theorem Written.of_derives {text : List Char} (hfinite : v.IsFinite) (h : Derives .value text) :
    Written (Derives .value) v text :=
  ⟨h.quiet.closed, fun _ => h, fun hnot => absurd hfinite hnot⟩

theorem AreWritten.closed (h : AreWritten P vs texts) :
    ∀ t ∈ texts.map String.toList, IsClosed t := by
  induction h with
  | nil => exact List.forall_mem_nil _
  | cons hfirst _ ih => exact List.forall_mem_cons.mpr ⟨hfirst.closed, ih⟩

theorem AreWritten.derives (h : AreWritten P vs texts) (hfinite : ∀ v ∈ vs, v.IsFinite) :
    ∀ t ∈ texts.map String.toList, P t := by
  induction h with
  | nil => exact List.forall_mem_nil _
  | cons hfirst _ ih =>
    rw [List.forall_mem_cons] at hfinite
    exact List.forall_mem_cons.mpr ⟨hfirst.derives hfinite.1, ih hfinite.2⟩

theorem AreWritten.loud (h : AreWritten P vs texts) (hnot : ¬∀ v ∈ vs, v.IsFinite) :
    ∃ t ∈ texts.map String.toList, IsLoud t := by
  induction h with
  | nil => exact absurd (List.forall_mem_nil _) hnot
  | @cons v t vs texts hfirst _ ih =>
    rw [List.forall_mem_cons] at hnot
    by_cases hv : v.IsFinite
    · obtain ⟨u, hu, hloud⟩ := ih fun hrest => hnot ⟨hv, hrest⟩
      exact ⟨u, List.mem_cons_of_mem _ hu, hloud⟩
    · exact ⟨t.toList, List.mem_cons_self, hfirst.loud hv⟩

/-- A value that is written between brackets, with what it holds on lines of its own. -/
theorem written_enclosed {opening closing : Char}
    (hopening : opening ≠ '"' ∧ isLoud opening = false)
    (hclosing : closing ≠ '"' ∧ isLoud closing = false) (h : AreWritten P vs texts)
    (hfinite : v.IsFinite ↔ ∀ v ∈ vs, v.IsFinite)
    (hnothing : Derives .value [opening, closing])
    (hderives : ∀ {b b' : List Char} {ts : List (List Char)}, AreBlanks b → AreBlanks b' → ts ≠ [] →
      (∀ t ∈ ts, P t) → Derives .value
        (opening :: (b ++ (List.intercalate (',' :: b) ts ++ b') ++ [closing]))) (indent : Nat) :
    Written (Derives .value) v
      (enclosed (String.singleton opening) (String.singleton closing) indent texts).toList := by
  rcases eq_or_ne texts [] with rfl | hne
  · cases h
    rw [toList_enclosed_nil, String.toList_singleton, String.toList_singleton]
    exact .of_derives (hfinite.mpr (List.forall_mem_nil _)) hnothing
  have hb := areBlanks_newline (indent + 2)
  have hb' := areBlanks_newline indent
  rw [toList_enclosed hne, String.toList_singleton, String.toList_singleton]
  generalize '\n' :: List.replicate (indent + 2) ' ' = b at hb ⊢
  generalize '\n' :: List.replicate indent ' ' = b' at hb' ⊢
  -- all parts are closed, so the whole is loud where a part is
  have hsep : IsClosed (',' :: b) := (IsQuiet.cons (by decide) hb.quiet).closed
  have hbefore : IsClosed ([opening] ++ b) := (IsQuiet.cons hopening hb.quiet).closed
  have hafter : IsClosed (b' ++ [closing]) := (hb'.quiet.append (.single hclosing)).closed
  have hinter := isClosed_intercalate hsep h.closed
  constructor
  · rw [← List.append_assoc]
    exact hbefore.append (hinter.append hafter)
  · intro hv
    simpa using hderives hb hb' (by simpa using hne) (h.derives (hfinite.mp hv))
  · intro hnot
    have hloud := isLoud_intercalate hsep h.closed (h.loud (hfinite.not.mp hnot))
    rw [← List.append_assoc, isLoud_append hbefore, isLoud_append hinter]
    exact .inr (.inl hloud)

theorem written_list {items : List Value} (h : AreWritten (Derives .value) items texts)
    (hfinite : v.IsFinite ↔ ∀ v ∈ items, v.IsFinite) (indent : Nat) :
    Written (Derives .value) v (enclosed "[" "]" indent texts).toList :=
  written_enclosed (by decide) (by decide) h hfinite (.noItems (List.forall_mem_nil _))
    (fun hb hb' hne hts => .array (derives_items hb hb' hne hts)) indent

theorem written_map {entries : List (Value × Value)}
    (h : AreWritten IsMember (entries.map Prod.snd) texts) (indent : Nat) :
    Written (Derives .value) (.map entries) (enclosed "\x7b" "\x7d" indent texts).toList :=
  written_enclosed (by decide) (by decide) h (by rw [Value.isFinite_map, List.forall_mem_map])
    (.noMembers (List.forall_mem_nil _))
    (fun hb hb' hne hts => .object (derives_members hb hb' hne hts)) indent

/-- An entry is written loudly if its value is. -/
theorem Written.member (ha : a.EscapesControls) {text : String} (key : String)
    (h : Written (Derives .value) v text.toList) :
    Written IsMember v (quote a key ++ ": " ++ text).toList := by
  have hquoted := isQuoted_quote ha key
  have hcolon : IsQuiet [':', ' '] := .cons (by decide) (.single (by decide))
  have htext : (quote a key ++ ": " ++ text).toList =
      (quote a key).toList ++ ([':', ' '] ++ text.toList) := by simp
  rw [htext]
  refine ⟨hquoted.quiet.closed.append (hcolon.closed.append h.closed), fun hv => ?_, fun hnot => ?_⟩
  · exact ⟨_, _, hquoted, h.derives hv, rfl⟩
  · rw [isLoud_append hquoted.quiet.closed, isLoud_append hcolon.closed]
    exact .inr (.inr (h.loud hnot))

/-- A double is written by the grammar if it is finite, and loudly if it is not. -/
theorem written_float (x : Float) :
    Written (Derives .value) (.float x) (Decimal.ofFloat .json x).toList := by
  cases hfinite : x.isFinite with
  | true =>
    obtain ⟨b, hb⟩ := isFinite_iff.mp hfinite
    exact .of_derives (Value.isFinite_float.mpr hfinite) (.number (isNumber_ofFloat hb))
  | false =>
    obtain ⟨hclosed, hloud⟩ := isLoud_ofFloat hfinite
    refine ⟨hclosed, fun hv => ?_, fun _ => hloud⟩
    rw [Value.isFinite_float, hfinite] at hv
    cases hv

theorem written_quote (ha : a.EscapesControls) (hfinite : v.IsFinite) (s : String) :
    Written (Derives .value) v (quote a s).toList :=
  .of_derives hfinite (.text (isQuoted_quote ha s))

theorem written_word (hfinite : v.IsFinite) {s : String} (h : s ∈ ["false", "null", "true"]) :
    Written (Derives .value) v s.toList :=
  .of_derives hfinite (.word (List.mem_map_of_mem h))

end Written

mutual

/-- A value is written by the grammar if it is finite, and loudly if it is not. -/
theorem written_writeAt (ha : a.EscapesControls) {indent : Nat} : ∀ {v : Value} {text : String},
    writeAt a indent v = .ok text → Written (Derives .value) v text.toList
  | .null, text, h => by
    cases h
    exact written_word Value.isFinite_null (by decide)
  | .bool b, text, h => by
    cases h
    cases b with
    | false => exact written_word (Value.isFinite_bool false) (by decide)
    | true => exact written_word (Value.isFinite_bool true) (by decide)
  | .int n, text, h => by
    obtain ⟨-, h⟩ := ite_error_eq_ok.mp h
    cases h
    exact .of_derives (Value.isFinite_int n) (.number (isNumber_toString n))
  | .float x, text, h => by
    cases h
    exact written_float x
  | .str s, text, h => by
    obtain rfl : quote a s = text := Except.ok.inj h
    exact written_quote ha (Value.isFinite_str s) s
  | .bytes bs, text, h => by
    -- bytes, moments and sets go out as texts
    obtain rfl : quote a (Value.bytes bs).display = text :=
      Except.ok.inj (ite_error_eq_ok.mp h).2
    exact written_quote ha (Value.isFinite_bytes bs) _
  | .moment m, text, h => by
    obtain rfl : quote a (Value.moment m).display = text :=
      Except.ok.inj (ite_error_eq_ok.mp h).2
    exact written_quote ha (Value.isFinite_moment m) _
  | .set items, text, h => by
    obtain rfl : quote a (Value.set items).display = text :=
      Except.ok.inj (ite_error_eq_ok.mp h).2
    exact written_quote ha Value.isFinite_set _
  | .list items, text, h => by
    obtain ⟨texts, hwrite, htext⟩ := bind_eq_ok.mp h
    obtain rfl := pure_eq_ok.mp htext
    exact written_list (written_writeItems ha hwrite) Value.isFinite_list indent
  | .pair v w, text, h => by
    obtain ⟨first, hfirst, hrest⟩ := bind_eq_ok.mp h
    obtain ⟨second, hsecond, htext⟩ := bind_eq_ok.mp hrest
    obtain rfl := pure_eq_ok.mp htext
    have hitems : AreWritten (Derives .value) [v, w] [first, second] :=
      .cons (written_writeAt ha hfirst) (.cons (written_writeAt ha hsecond) .nil)
    exact written_list hitems (by simp [Value.isFinite_pair]) indent
  | .map entries, text, h => by
    obtain ⟨texts, hwrite, htext⟩ := bind_eq_ok.mp h
    obtain rfl := pure_eq_ok.mp htext
    exact written_map (written_writeEntries ha hwrite) indent

theorem written_writeItems (ha : a.EscapesControls) {indent : Nat} :
    ∀ {items : List Value} {texts : List String}, writeItems a indent items = .ok texts →
      AreWritten (Derives .value) items texts
  | [], texts, h => by
    cases h
    exact .nil
  | v :: rest, texts, h => by
    obtain ⟨first, hfirst, hrest⟩ := bind_eq_ok.mp h
    obtain ⟨others, hothers, htexts⟩ := bind_eq_ok.mp hrest
    obtain rfl := pure_eq_ok.mp htexts
    exact .cons (written_writeAt ha hfirst) (written_writeItems ha hothers)

theorem written_writeEntries (ha : a.EscapesControls) {indent : Nat} :
    ∀ {entries : List (Value × Value)} {texts : List String},
      writeEntries a indent entries = .ok texts →
        AreWritten IsMember (entries.map Prod.snd) texts
  | [], texts, h => by
    cases h
    exact .nil
  | (k, v) :: rest, texts, h => by
    obtain ⟨key, -, hrest⟩ := bind_eq_ok.mp h
    obtain ⟨text, htext, hrest⟩ := bind_eq_ok.mp hrest
    obtain ⟨others, hothers, htexts⟩ := bind_eq_ok.mp hrest
    obtain rfl := pure_eq_ok.mp htexts
    exact .cons ((written_writeAt ha htext).member ha key) (written_writeEntries ha hothers)

end

/-- Nothing in a text of the grammar is loud. -/
theorem IsJsonText.not_loud {text : String} (h : IsJsonText text) : ¬IsLoud text.toList := by
  obtain ⟨b, t, b', hb, ht, hb', htext⟩ := h
  rw [htext]
  exact not_isLoud (hb.quiet.append (ht.quiet.append hb'.quiet))

/-- What is written, and blanks after it, are a text of JSON exactly if all doubles in the value are
finite. -/
theorem isJsonText_write_iff (ha : a.EscapesControls) {v : Value} {text tail : String}
    (h : write a v = .ok text) (htail : AreBlanks tail.toList) :
    IsJsonText (text ++ tail) ↔ v.IsFinite := by
  have hwritten := written_writeAt ha h
  constructor
  · intro htext
    have hquiet := htext.not_loud
    rw [String.toList_append, isLoud_append hwritten.closed] at hquiet
    by_contra hnot
    exact hquiet (.inl (hwritten.loud hnot))
  · intro hfinite
    exact ⟨[], text.toList, tail.toList, List.forall_mem_nil _, hwritten.derives hfinite, htail,
      String.toList_append⟩

end Raml.Json
