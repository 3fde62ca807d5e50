import Raml.Proofs.Outcome
import Raml.Proofs.Template.Fill

/-!
# Words that lack a first letter

Only one inflector does not respell every word: lower camel case needs a first letter, and the empty
word has none. The word may be empty as it is given, or have become so by the inflectors before.
`canSpell` follows a word through its inflectors, and `inflectAll_eq_emptyWord` says that it tells
exactly when the first letter is missed. A text is `IsSpellable` if no placeholder in it misses one,
and the values that it asks for have texts themselves; then nothing but an unknown inflector keeps
it from being filled in.
-/

namespace Raml

/-! ## Letters -/

namespace Text.Unicode

theorem lowerChar_ne_nil (c : Char) : lowerChar c ≠ [] := by
  rw [lowerChar]
  split
  · exact List.cons_ne_nil _ _
  · rw [mapCase]
    split
    · rename_i n text hfind
      have hall : ∀ e ∈ lowerTexts, e.2 ≠ [] := by decide
      intro hnil
      exact hall _ (List.mem_of_find?_eq_some hfind) (List.map_eq_nil_iff.mp hnil)
    · split <;> exact List.cons_ne_nil _ _

theorem lowerChars_eq_nil {cs : List Char} : lowerChars cs = [] ↔ cs = [] := by
  cases cs with
  | nil => exact iff_of_true rfl rfl
  | cons c cs =>
    refine iff_of_false ?_ (List.cons_ne_nil c cs)
    rw [lowerChars, lowerFrom, List.append_eq_nil_iff]
    rintro ⟨h, -⟩
    split at h
    · cases h
    · exact lowerChar_ne_nil c h

end Text.Unicode

namespace Word

theorem partCapitals_eq_nil {cs : List Char} : partCapitals cs = [] ↔ cs = [] := by
  fun_cases partCapitals cs <;> simp_all

theorem partWords_eq_nil {cs : List Char} : partWords cs = [] ↔ cs = [] := by
  fun_cases partWords cs <;> simp_all

theorem underscoredChars_eq_nil {cs : List Char} : underscoredChars cs = [] ↔ cs = [] := by
  rw [underscoredChars, Text.Unicode.lowerChars_eq_nil, List.map_eq_nil_iff, partWords_eq_nil,
    partCapitals_eq_nil]

/-- Lower camel case needs a first letter, and nothing else. -/
theorem lowerCamel?_eq_none {s : String} : lowerCamel? s = none ↔ s = "" := by
  rw [← String.toList_eq_nil_iff, ← underscoredChars_eq_nil, lowerCamel?]
  split <;> simp_all

end Word

namespace Template

/-! ## Inflectors -/

/-- Only an empty word stops an inflector, and only the one that asks for a first letter. -/
theorem Inflector.apply_eq_error {i : Inflector} {s : String} {e : Fault} :
    i.apply s = .error e ↔ i = .lowerCamelCase ∧ s = "" ∧ e = .emptyWord := by
  cases i with
  | lowerCamelCase =>
    rw [apply, ← Word.lowerCamel?_eq_none]
    cases Word.lowerCamel? s <;> simp [eq_comm]
  | _ => simp [apply]

/-- Inflecting finds no letter exactly if an empty value is given to the inflector that asks for
one. -/
theorem inflect_eq_emptyWord {value written : String} :
    inflect value written = .error .emptyWord ↔
      Inflector.ofName? written = some .lowerCamelCase ∧ value = "" := by
  rw [inflect]
  cases Inflector.ofName? written with
  | none => simp
  | some i => simp [Inflector.apply_eq_error]

/-- Whether a word has a first letter whenever one of the inflectors that it goes through needs it;
after an unknown one no other is reached. -/
def canSpell (value : String) : List String → Bool
  | [] => true
  | written :: rest =>
    !(Inflector.ofName? written == some .lowerCamelCase && value.isEmpty) &&
      match inflect value written with
      | .ok next => canSpell next rest
      | .error _ => true

/-- A word goes through its inflectors without a first letter missed, or else it fails on that. -/
theorem inflectAll_eq_emptyWord {value : String} {inflectors : List String} :
    inflectAll value inflectors = .error .emptyWord ↔ canSpell value inflectors = false := by
  induction inflectors generalizing value with
  | nil => simp [inflectAll, canSpell]
  | cons written rest ih =>
    have hfirst : (Inflector.ofName? written == some .lowerCamelCase && value.isEmpty) = true ↔
        inflect value written = .error .emptyWord := by
      simp [inflect_eq_emptyWord, String.isEmpty_iff]
    rw [inflectAll, canSpell]
    cases h : inflect value written with
    | ok next =>
      rw [h] at hfirst
      rw [Bool.eq_false_iff.mpr (mt hfirst.mp nofun)]
      exact ih
    | error e =>
      rw [h] at hfirst
      change Except.error e = Except.error Fault.emptyWord ↔ _
      rw [← hfirst]
      simp

/-! ## Texts -/

/-- Whether a segment can be filled in unless an inflector is unknown. -/
def Segment.isSpellable (d : Dictionary) : Segment → Bool
  | .char _ => true
  | .hole inner =>
    match parts inner with
    | [] => true
    | name :: inflectors =>
      match d.get? name with
      | none => true
      | some value => value.isShown && canSpell value.yamlText inflectors

/-- Whether every value that the placeholders of a text ask for has a text, and none of them needs
the first letter of an empty word. -/
def IsSpellable (d : Dictionary) (s : String) : Prop :=
  ∀ segment ∈ segments s.toList, segment.isSpellable d = true

instance (d : Dictionary) (s : String) : Decidable (IsSpellable d s) :=
  inferInstanceAs (Decidable (∀ segment ∈ segments s.toList, segment.isSpellable d = true))

variable {d : Dictionary} {s : String}

/-- Inflecting never needs the text of a number. -/
theorem inflect_ne_longNumber (value written : String) :
    inflect value written ≠ .error .longNumber := by
  unfold inflect
  split
  · unfold Inflector.apply
    repeat' split
    all_goals nofun
  · nofun

/-- A word has a text, whatever becomes of it. -/
theorem inflectAll_ne_longNumber {value : String} {inflectors : List String} :
    inflectAll value inflectors ≠ .error .longNumber := by
  induction inflectors generalizing value with
  | nil => nofun
  | cons written rest ih =>
    intro h
    rcases bind_eq_error.mp h with hfirst | ⟨next, -, hrest⟩
    · exact inflect_ne_longNumber value written hfirst
    · exact ih hrest

/-- What is not spellable fails on a word without a first letter or on a value without a text. -/
theorem Segment.isSpellable_eq_false {segment : Segment} : segment.isSpellable d = false ↔
    segment.fill d = .error .emptyWord ∨ segment.fill d = .error .longNumber := by
  cases segment with
  | char c => simp [fill, isSpellable]
  | hole inner =>
    rw [fill, isSpellable]
    cases parts inner with
    | nil => simp
    | cons name inflectors =>
      dsimp only
      cases d.get? name with
      | none => simp
      | some value =>
        dsimp only
        cases value.isShown with
        | false => simp
        | true =>
          rw [if_pos rfl, Bool.true_and, map_eq_error, map_eq_error,
            inflectAll_eq_emptyWord, or_iff_left inflectAll_ne_longNumber]

/-- Segments that can be spelled fail only on an inflector that nobody knows. -/
theorem exists_unknown_of_fillAll {ss : List Segment} (h : ∀ s ∈ ss, s.isSpellable d = true)
    {f : Fault} (hfill : fillAll d ss = .error f) : ∃ name, f = .unknownInflector name := by
  induction ss with
  | nil => cases hfill
  | cons s ss ih =>
    rw [List.forall_mem_cons] at h
    rw [fillAll] at hfill
    rcases bind_eq_error.mp hfill with hhere | ⟨here, -, hrest⟩
    · have hspell := mt Segment.isSpellable_eq_false.mpr (ne_false_of_eq_true h.1)
      rw [hhere, not_or] at hspell
      cases f with
      | unknownInflector name => exact ⟨name, rfl⟩
      | emptyWord => exact absurd rfl hspell.1
      | longNumber => exact absurd rfl hspell.2
    · rcases bind_eq_error.mp hrest with hthere | ⟨there, -, hdone⟩
      · exact ih h.2 hthere
      · cases hdone

/-- Only an unknown inflector keeps a spellable text from being filled in. -/
theorem IsSpellable.exists_unknown (h : IsSpellable d s) {f : Fault}
    (hfill : instantiate d s = .error f) : ∃ name, f = .unknownInflector name :=
  exists_unknown_of_fillAll h (map_eq_error.mp hfill)

theorem isLocal_isSpellable (d : Dictionary) : IsLocal (IsSpellable d) :=
  isLocal_of_segments fun _ _ => rfl

/-- Without values there is nothing to respell. -/
theorem isSpellable_empty (s : String) : IsSpellable [] s := by
  intro segment _
  cases segment with
  | char c => rfl
  | hole inner =>
    rw [Segment.isSpellable]
    split <;> rfl

end Template
end Raml
