import Raml.Proofs.Merge.Copied
import Raml.Proofs.Merge.Precedence

/-!
# Filling in a field once more

What a merge leaves in a field either stands or is computed anew by the next one: a text that still
holds placeholders says as little as none, and so the template is filled in as if there were nothing
(`text_again`). A field that turned into a number keeps its number (`templated_again`), and what a
table or a list has got is not added to it again (`values_again`, `security_again`).
-/

namespace Raml.Merge

variable {app : Application}

/-! ## Texts -/

/-- Whether a text is missing or empty. -/
def SaysNothing (s : Option String) : Prop := s = none ∨ s = some ""

theorem saysNothing_or (p : Option String) : SaysNothing p ∨ ∃ t, t ≠ "" ∧ p = some t := by
  cases p with
  | none => exact .inl (.inl rfl)
  | some t =>
    by_cases ht : t = ""
    · exact .inl (.inr (congrArg some ht))
    · exact .inr ⟨t, ht, rfl⟩

theorem saysNothing_of_plain {c : Option String} (hc : IsPlain c.toList)
    (hstands : Template.stands c = false) : SaysNothing c := by
  rcases saysNothing_or c with h | ⟨s, hs, rfl⟩
  · exact h
  · have hbare : Template.hasBrackets s = false := hc s (List.mem_singleton_self s)
    rw [stands_of_plain hs hbare] at hstands
    cases hstands

/-- What does not stand after a step that leaves alone what stands did not stand before it. -/
theorem not_stands_before {c r : Option String} {x : Except Error (Option String)}
    (hkeep : Template.stands c = true → x = .ok c) (h : x = .ok r)
    (hr : Template.stands r = false) : Template.stands c = false := by
  by_contra hc
  rw [Bool.not_eq_false] at hc
  have hsame : c = r := Except.ok.inj ((hkeep hc).symm.trans h)
  rw [← hsame, hc] at hr
  cases hr

/-- A text that does not stand is as good as none where the template has one. -/
theorem text_eq_text_none {c : Option String} {t : String} (hc : Template.stands c = false)
    (ht : t ≠ "") : app.text c (some t) = app.text none (some t) := by
  have hnone : Template.stands none = false := rfl
  unfold Application.text Template.substitute
  simp [hc, hnone, ht]

/-- A template without a text changes nothing. -/
theorem text_of_saysNothing {c p : Option String} (hp : SaysNothing p) : app.text c p = .ok c := by
  unfold Application.text Template.substitute
  rcases hp with rfl | rfl
  · cases Template.stands c <;> rfl
  · cases Template.stands c <;> rfl

/-- A text that was merged with another is not changed by it again. -/
theorem text_again {c p r : Option String} (h : app.text c p = .ok r) : app.text r p = .ok r := by
  by_cases hr : Template.stands r = true
  · exact text_of_stands hr
  · rw [Bool.not_eq_true] at hr
    have hc : Template.stands c = false := not_stands_before text_of_stands h hr
    rcases saysNothing_or p with hp | ⟨t, ht, rfl⟩
    · exact text_of_saysNothing hp
    · rw [text_eq_text_none hr ht, ← text_eq_text_none hc ht, h]

theorem typeName_of_stands {c p : Option String} (h : Template.stands c = true) :
    app.typeName c p = .ok c := by
  unfold Application.typeName
  rw [if_pos h]
  rfl

theorem typeName_of_not_stands {c : Option String} {t : String} (hc : Template.stands c = false)
    (ht : t ≠ "") : app.typeName c (some t) = app.typeName none (some t) := by
  unfold Application.typeName
  rw [hc, if_neg Bool.false_ne_true, text_eq_text_none hc ht]
  rfl

theorem typeName_of_saysNothing {c p : Option String} (hc : SaysNothing c) (hp : SaysNothing p) :
    app.typeName c p = .ok c := by
  unfold Application.typeName
  rw [text_of_saysNothing hp]
  rcases hc with rfl | rfl <;> rfl

/-- A type that is written anew may change where the template has none, so that of the child has
to be free of placeholders. -/
theorem typeName_again {c p r : Option String} (hplain : IsPlain c.toList)
    (h : app.typeName c p = .ok r) : app.typeName r p = .ok r := by
  by_cases hr : Template.stands r = true
  · exact typeName_of_stands hr
  · rw [Bool.not_eq_true] at hr
    have hc : Template.stands c = false := not_stands_before typeName_of_stands h hr
    rcases saysNothing_or p with hp | ⟨t, ht, rfl⟩
    · have hnothing : SaysNothing c := saysNothing_of_plain hplain hc
      have hsame : c = r := Except.ok.inj ((typeName_of_saysNothing hnothing hp).symm.trans h)
      rw [← hsame]
      exact typeName_of_saysNothing hnothing hp
    · rw [typeName_of_not_stands hr ht, ← typeName_of_not_stands hc ht, h]

/-! ## Other fields -/

/-- A text of a template is filled in where the child has none or one with placeholders. -/
theorem templated_text {α : Type} {k : Kind α} {label field s : String}
    {hs : Template.hasBrackets s = true} {c : Option (Templated α)}
    (hc : ∀ a, c ≠ some (.exact a)) :
    templated app k label field c (some (.text s hs)) =
      (do retype k label field (← app.text none (some s))) := by
  have hne : s ≠ "" := by
    rintro rfl
    exact absurd hs (by decide)
  cases c with
  | none => rfl
  | some c =>
    cases c with
    | exact a => exact absurd rfl (hc a)
    | text u hu =>
      have hstands : Template.stands (some u) = false := by simp [Template.stands, hu]
      have hrun : templated app k label field (some (.text u hu)) (some (.text s hs)) =
          (do retype k label field (← app.text (some u) (some s))) := rfl
      rw [hrun, text_eq_text_none hstands hne]

/-- Nor is a field that may hold a template. -/
theorem templated_again {α : Type} {k : Kind α} {label field : String}
    {c p r : Option (Templated α)} (h : templated app k label field c p = .ok r) :
    templated app k label field r p = .ok r := by
  cases p with
  | none => rfl
  | some p =>
    cases p with
    | exact b =>
      cases r with
      | some r => rfl
      | none =>
        -- a value of the template leaves no field open
        cases c <;> cases h
    | text s hs =>
      by_cases hr : ∃ a, r = some (.exact a)
      · obtain ⟨a, rfl⟩ := hr
        rfl
      · have hnew : ∀ a, r ≠ some (.exact a) := fun a ha => hr ⟨a, ha⟩
        have hold : ∀ a, c ≠ some (.exact a) := by
          rintro a rfl
          exact hnew a (Except.ok.inj h).symm
        rw [templated_text hold] at h
        rw [templated_text hnew, h]

/-- The text of a node, as a field of texts would hold it. -/
def asText : Value → Option String
  | .str s => some s
  | _ => none

/-- The node of a field of texts. -/
def ofText (s : Option String) : Value := (s.map Value.str).getD .null

theorem asText_ofText (s : Option String) : asText (ofText s) = s := by cases s <;> rfl

/-- Whether a field that holds anything is empty or holds a text. -/
def IsTextual (v : Value) : Prop := v = ofText (asText v)

theorem isTextual_ofText (s : Option String) : IsTextual (ofText s) := by
  unfold IsTextual
  rw [asText_ofText]

/-- Texts are merged as in the fields of texts. -/
theorem anything_text {c : Value} {s : String} (hc : IsTextual c) :
    anything app c (.str s) = (app.text (asText c) (some s)).map ofText := by
  rw [hc, asText_ofText]
  cases asText c with
  | none =>
    change (do return ofText (← app.text none (some s))) = _
    cases app.text none (some s) <;> rfl
  | some u =>
    change (do return ofText (← app.text (some u) (some s))) = _
    cases app.text (some u) (some s) <;> rfl

/-- What is no text stays beside a text of the template. -/
theorem anything_of_not_textual {c : Value} {s : String} (hc : ¬IsTextual c) :
    anything app c (.str s) = .ok c := by
  cases c with
  | null => exact absurd rfl hc
  | str u => exact absurd rfl hc
  | _ => rfl

/-- Nor is a value of any kind. -/
theorem anything_again {c p r : Value} (h : anything app c p = .ok r) :
    anything app r p = .ok r := by
  cases p with
  | null => rfl
  | str s =>
    by_cases hc : IsTextual c
    · rw [anything_text hc] at h
      obtain ⟨t, ht, rfl⟩ := map_eq_ok.mp h
      rw [anything_text (isTextual_ofText t), asText_ofText, text_again ht]
      rfl
    · have hsame : c = r := Except.ok.inj ((anything_of_not_textual hc).symm.trans h)
      rw [← hsame]
      exact anything_of_not_textual hc
  | _ =>
    -- what is there stays, and null is filled in anew
    cases r with
    | null =>
      cases c with
      | null => exact h
      | _ => cases h
    | _ => rfl

theorem choices_again {c p r : Option (List Value)} (h : choices app c p = .ok r) :
    choices app r p = .ok r := by
  cases p with
  | none => rfl
  | some vs =>
    cases r with
    | some r => rfl
    | none =>
      -- a list of the template leaves no field open
      cases c with
      | some c => cases h
      | none =>
        obtain ⟨_, _, h⟩ := bind_eq_ok.mp h
        cases h

/-- Nor is a shape. -/
theorem shape_again {c p r : Option Shape} (h : app.shape c p = .ok r) : app.shape r p = .ok r := by
  cases p with
  | none => rfl
  | some p =>
    by_cases hc : ∃ s, c = some s ∧ Application.hasBrackets s.toValue = false
    · obtain ⟨s, rfl, hs⟩ := hc
      have hkeep : app.shape (some s) (some p) = .ok (some s) := by
        unfold Application.shape
        simp only [hs, Bool.false_eq_true, if_false]
      have hsame : some s = r := Except.ok.inj (hkeep.symm.trans h)
      rw [← hsame]
      exact hkeep
    · have hfill : app.shape c (some p) = (app.instantiate p).map some := by
        cases c with
        | none => rfl
        | some s =>
          have hs : Application.hasBrackets s.toValue = true := by
            by_contra hs
            exact hc ⟨s, rfl, by simpa using hs⟩
          unfold Application.shape
          simp only [hs, if_true]
      rw [hfill] at h
      obtain ⟨s, hs, rfl⟩ := map_eq_ok.mp h
      -- what was filled in either stands or is filled in the same way once more
      unfold Application.shape
      simp only [hs]
      split <;> rfl

/-! ## Tables without a way back -/

theorem has_of_grow {α : Type} {key : String} {t t' : Table α} (h : t <+: t')
    (hkey : t.has key = true) : t'.has key = true := by
  have hnames : t.names <+: t'.names := h.map Prod.fst
  exact Table.has_iff_mem_names.mpr (hnames.subset (Table.has_iff_mem_names.mp hkey))

theorem has_set {α : Type} (key : String) (a : α) (t : Table α) :
    (t.set key a).has key = true := by
  rw [Table.has, Table.get?_set_self]
  rfl

theorem values_of_has {c p : Table Value} (h : ∀ e ∈ p, c.has e.1 = true) :
    values app c p = .ok c := by
  induction p with
  | nil => rfl
  | cons e p ih =>
    obtain ⟨key, v⟩ := e
    rw [List.forall_mem_cons] at h
    exact values_cons_eq_ok.mpr (.inl ⟨h.1, ih h.2⟩)

theorem has_of_values {c p r : Table Value} (h : values app c p = .ok r) :
    ∀ e ∈ p, r.has e.1 = true := by
  induction p generalizing c with
  | nil => exact List.forall_mem_nil _
  | cons e p ih =>
    obtain ⟨key, v⟩ := e
    rcases values_cons_eq_ok.mp h with ⟨hkey, h⟩ | ⟨-, v', -, h⟩
    · exact List.forall_mem_cons.mpr ⟨has_of_grow (values_grow h) hkey, ih h⟩
    · exact List.forall_mem_cons.mpr ⟨has_of_grow (values_grow h) (has_set key v' c), ih h⟩

/-- Nor are the entries of a table of values. -/
theorem values_again {c p r : Table Value} (h : values app c p = .ok r) :
    values app r p = .ok r :=
  values_of_has (has_of_values h)

/-! ## Lists -/

/-- Nor are the security schemes. -/
theorem security_again {c p r : List (Option Choice)} (h : security app c p = .ok r) :
    security app r p = .ok r := by
  obtain ⟨others, hothers, h⟩ := bind_eq_ok.mp h
  rw [← pure_eq_ok.mp h]
  unfold security
  rw [hothers]
  exact congrArg Except.ok (appendMissing_again sameName_iff c others)

end Raml.Merge
