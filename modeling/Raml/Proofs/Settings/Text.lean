import Raml.Proofs.Read.Double
import Raml.Proofs.Settings.Key
import Raml.Proofs.Settings.Precedence

/-!
# Texts as settings

A new value for a setting is given as a text, and it is not read like the same text in a file with
settings: `coerce` has readers of its own. Both are followed down to what they make of the text for
the single setting. They agree on every text that names a format, on plain numbers, and on the words
for false and those that `coerce` takes for true (`Leaf.Agrees`), and on no others
(`set_agrees_iff`): words like `on` are true in a file, and every other word is refused there, but
all of these switch a setting off when it is given a new value.
-/

namespace Raml
namespace Settings

open Numeral (floating? Floating)

namespace Leaf

/-- The key of a setting. -/
def key (leaf : Leaf) : String := leaf.group ++ "." ++ leaf.name

/-- The names that lead to a setting. -/
def names (leaf : Leaf) : List String := [leaf.group, leaf.name]

theorem namesOf_key (leaf : Leaf) : namesOf leaf.key = leaf.names := by
  cases leaf <;> decide

/-- Whether a text is read as the same value for a setting whether it is given or in a file. -/
def Agrees (text : String) : Leaf → Prop
  | .timeout =>
    Numeral.IsPlain text.toList ∨ floating? text = none ∧ doubleOfText? text = none
  | .followRedirects | .verifySsl =>
    String.ofList (text.toList.map Char.toLower) ∈ falseWords ++ onWords
  | .format => True

end Leaf

/-! ## Words for truth values -/

/-- Words for false are no words that switch on, and words that switch on are words for true. -/
theorem truthOfText?_eq_iff {text : String} :
    truthOfText? text = some (onWords.contains (Text.Unicode.toLower text)) ↔
      String.ofList (text.toList.map Char.toLower) ∈ falseWords ++ onWords := by
  have hascii : ∀ word ∈ falseWords ++ trueWords, ∀ c ∈ word.toList, c.toNat < 128 := by
    simp [falseWords, trueWords]
  have hfalse : ∀ word ∈ falseWords, word ∉ onWords := by decide
  have htrue : ∀ word ∈ onWords, word ∈ trueWords := by decide
  -- words are of plain letters, so both ways to write a text in small letters find the same words
  generalize hword : String.ofList (text.toList.map Char.toLower) = word
  have hlower (h : word ∈ falseWords ++ trueWords) : Text.Unicode.toLower text = word :=
    Text.Unicode.toLower_of_ascii (hascii word h) hword
  rw [truthOfText?, hword, List.mem_append]
  by_cases hoff : word ∈ falseWords
  · rw [if_pos (List.contains_iff_mem.mpr hoff), hlower (List.mem_append_left _ hoff)]
    have hcontains : onWords.contains word = false := by simpa using hfalse word hoff
    rw [hcontains]
    exact iff_of_true rfl (.inl hoff)
  · rw [if_neg (by simpa using hoff)]
    by_cases hon : word ∈ trueWords
    · rw [if_pos (List.contains_iff_mem.mpr hon), hlower (List.mem_append_right _ hon),
        Option.some.injEq, eq_comm, List.contains_iff_mem]
      exact (or_iff_right hoff).symm
    · rw [if_neg (by simpa using hon)]
      exact iff_of_false (by simp) fun h => hon (htrue word (h.resolve_left hoff))

/-! ## What a text is for a setting -/

section Text

variable {leaf : Leaf} {text : String} {user : Settings} {v : Value}

/-- A text is read as a double if it says one. -/
theorem double_str {x : Float} :
    Reader.double (.str text) = .good x ↔ doubleOfText? text = some x := by
  rw [Reader.double, readDouble, readDouble.ofText]
  cases doubleOfText? text <;> simp [Checked.ofExcept, Checked.fail]

theorem truth_str {b : Bool} :
    Reader.truth (.str text) = .good b ↔ truthOfText? text = some b := by
  rw [Reader.truth, readTruth, readTruth.ofText]
  cases truthOfText? text <;> simp [Checked.ofExcept, Checked.fail]

namespace Leaf

/-- What a setting gets that is given a text. -/
def given (text : String) : Leaf → Option Value
  | .timeout => ((floating? text).map Floating.toFloat).map .float
  | .followRedirects | .verifySsl =>
    (some (onWords.contains (Text.Unicode.toLower text))).map .bool
  | .format => some (.str text)

/-- What a setting is that has a text in a file. -/
def written (text : String) : Leaf → Option Value
  | .timeout => (doubleOfText? text).map .float
  | .followRedirects | .verifySsl => (truthOfText? text).map .bool
  | .format => some (.str text)

/-- A text is made to fit a leaf as its kind of value gives it. -/
theorem coerce_eq_ok {key : String} :
    coerce key text (leaf.valueIn user) = .ok v ↔ leaf.given text = some v := by
  cases leaf with
  | timeout =>
    rw [valueIn, coerce, given]
    cases floating? text <;> simp
  | _ => simp [valueIn, coerce, given]

theorem read_str_eq_good : leaf.read (.str text) = .good v ↔ leaf.written text = some v := by
  cases leaf with
  | timeout => simp only [read, written, Checked.map_eq_good, double_str, Option.map_eq_some_iff]
  | format => simp [read, written, Checked.map_eq_good, Reader.strictText, readStrictText,
      Checked.ofExcept]
  | _ => simp only [read, written, Checked.map_eq_good, truth_str, Option.map_eq_some_iff]

/-- Only a text that says so is false in a file. -/
theorem truthOfText?_of_written {b : Bool} (h : leaf.written text = some (.bool b)) :
    truthOfText? text = some b := by
  cases leaf with
  | timeout =>
    obtain ⟨x, -, hx⟩ := Option.map_eq_some_iff.mp h
    cases hx
  | format => cases h
  | _ =>
    obtain ⟨a, ha, hb⟩ := Option.map_eq_some_iff.mp h
    rwa [Value.bool.inj hb] at ha

/-- The texts on which both agree. -/
theorem agrees_iff : leaf.Agrees text ↔ leaf.given text = leaf.written text := by
  cases leaf with
  | timeout =>
    rw [given, written, (Option.map_injective fun _ _ => Value.float.inj).eq_iff, eq_comm]
    exact Numeral.doubleOfText?_eq_iff.symm
  | format => exact iff_of_true trivial rfl
  | _ =>
    rw [given, written, (Option.map_injective fun _ _ => Value.bool.inj).eq_iff, eq_comm]
    exact truthOfText?_eq_iff.symm

end Leaf

end Text

/-! ## One setting in place of another -/

section Put

variable {leaf : Leaf} {text : String} {user new : Settings} {v w : Value}

/-- Whether settings are those of the user but for one of them. -/
def KeepsOthers (leaf : Leaf) (user new : Settings) : Prop :=
  ∀ other : Leaf, other.name ≠ leaf.name → other.valueIn new = other.valueIn user

theorem exists_group (user : Settings) (leaf : Leaf) :
    ∃ group, Value.get? leaf.group user.entries = some (.map group) ∧
      Value.get? leaf.name group = some (leaf.valueIn user) := by
  obtain ⟨group, hgroup⟩ := hasGroup_entries user leaf.group_eq
  exact ⟨group, hgroup, (Leaf.find?_eq hgroup).symm.trans (Leaf.find?_entries user leaf)⟩

/-- The key of a leaf stands for its value. -/
theorem leaf?_entries (user : Settings) (leaf : Leaf) :
    leaf? leaf.key leaf.names user.entries = .ok (leaf.valueIn user) := by
  obtain ⟨group, hgroup, hname⟩ := exists_group user leaf
  rw [Leaf.names, leaf?_of_group hgroup]
  exact leaf?_singleton.mpr ⟨hname, fun ⟨es, hes⟩ => leaf.valueIn_ne_map user es hes⟩

/-- Putting a leaf in leaves the groups groups. -/
theorem grouped_putLeaf (w : Value) (user : Settings) (leaf : Leaf) :
    Grouped (putLeaf w leaf.names user.entries) := by
  obtain ⟨group, hgroup, -⟩ := exists_group user leaf
  intro other v hv
  rw [Leaf.names, get?_putLeaf_of_group hgroup] at hv
  split at hv
  · exact ⟨_, (Option.some.inj hv).symm⟩
  · obtain ⟨own, hown⟩ := hasGroup_entries user other.group_eq
    exact ⟨own, Option.some.inj (hv.symm.trans hown)⟩

theorem find?_putLeaf (w : Value) (user : Settings) (leaf other : Leaf) :
    other.find? (putLeaf w leaf.names user.entries) =
      some (if other.name = leaf.name then w else other.valueIn user) := by
  obtain ⟨group, hgroup, -⟩ := exists_group user leaf
  have hput : Value.get? other.group (putLeaf w leaf.names user.entries) =
      if other.group = leaf.group then some (.map (putLeaf w [leaf.name] group))
      else Value.get? other.group user.entries := get?_putLeaf_of_group hgroup other.group
  by_cases hsame : other.group = leaf.group
  · rw [if_pos hsame] at hput
    rw [Leaf.find?_eq hput, get?_putLeaf_singleton]
    by_cases hname : other.name = leaf.name
    · rw [if_pos hname, if_pos hname]
    · rw [if_neg hname, if_neg hname, ← Leaf.find?_eq (hsame ▸ hgroup), Leaf.find?_entries]
  · have hname : other.name ≠ leaf.name := fun hname => hsame (by rw [Leaf.eq_of_name_eq hname])
    rw [if_neg hsame] at hput
    rw [if_neg hname, Leaf.find?, hput, ← Leaf.find?, Leaf.find?_entries]

/-- Settings are read with one value in place of another if that value is read. -/
theorem read_putLeaf_iff : Settings.read (.map (putLeaf w leaf.names user.entries)) = .good new ↔
    leaf.read w = .good (leaf.valueIn new) ∧ KeepsOthers leaf user new := by
  rw [read_eq_good_iff (grouped_putLeaf w user leaf)]
  constructor
  · intro h
    constructor
    · have hleaf := h leaf
      rwa [find?_putLeaf, if_pos rfl] at hleaf
    · intro other hname
      have hother := h other
      rw [find?_putLeaf, if_neg hname, Option.getD_some, other.read_valueIn] at hother
      exact (Checked.good.inj hother).symm
  · rintro ⟨hleaf, hothers⟩ other
    rw [find?_putLeaf, Option.getD_some]
    by_cases hname : other.name = leaf.name
    · rw [if_pos hname, Leaf.eq_of_name_eq hname]
      exact hleaf
    · rw [if_neg hname, hothers other hname]
      exact other.read_valueIn user

/-- What a setting is given is read as that. -/
theorem Leaf.read_of_given (h : leaf.given text = some v) : leaf.read v = .good v := by
  cases leaf with
  | timeout =>
    obtain ⟨x, -, rfl⟩ := Option.map_eq_some_iff.mp h
    rfl
  | _ =>
    obtain rfl := Option.some.inj h
    rfl

/-- What a setting gets is the value that it is given. -/
theorem set_eq_ok_iff : user.set leaf.key text = .ok (v, new) ↔
    leaf.given text = some v ∧ v = leaf.valueIn new ∧ KeepsOthers leaf user new := by
  rw [set, leaf.namesOf_key, leaf?_entries, bind_of_eq_ok rfl]
  -- settings with a value that has been coerced are always read, so only `coerce` can refuse
  constructor
  · intro h
    obtain ⟨w, hcoerce, h⟩ := bind_eq_ok.mp h
    have hgiven := Leaf.coerce_eq_ok.mp hcoerce
    split at h
    · rename_i found hread
      cases h
      obtain ⟨hvalue, hothers⟩ := read_putLeaf_iff.mp hread
      exact ⟨hgiven, Checked.good.inj ((Leaf.read_of_given hgiven).symm.trans hvalue), hothers⟩
    · cases h
  · rintro ⟨hgiven, rfl, hothers⟩
    have hread : Settings.read (.map (putLeaf (leaf.valueIn new) leaf.names user.entries)) =
        .good new := read_putLeaf_iff.mpr ⟨Leaf.read_of_given hgiven, hothers⟩
    rw [bind_of_eq_ok (Leaf.coerce_eq_ok.mpr hgiven), hread]
    rfl

/-- Whether settings of the user with a text in place of a setting are read, and as these. -/
def ReadsText (leaf : Leaf) (user : Settings) (text : String) (new : Settings) : Prop :=
  Settings.read (.map (putLeaf (.str text) (namesOf leaf.key) user.entries)) = .good new

/-- A text reads as settings that differ from those of the user in one leaf, which is what the text
says. -/
theorem readsText_iff : ReadsText leaf user text new ↔
    leaf.written text = some (leaf.valueIn new) ∧ KeepsOthers leaf user new := by
  rw [ReadsText, leaf.namesOf_key, read_putLeaf_iff, Leaf.read_str_eq_good]

/-- Any value that is read as a setting may be that setting. -/
theorem exists_keepsOthers (user : Settings) (h : leaf.read w = .good v) :
    ∃ new, leaf.valueIn new = v ∧ KeepsOthers leaf user new := by
  cases leaf with
  | timeout =>
    obtain ⟨x, -, rfl⟩ := Checked.map_eq_good.mp h
    refine ⟨⟨{ user.fetch with timeout := x }, user.output⟩, rfl, fun other hname => ?_⟩
    cases other <;> first | rfl | exact absurd rfl hname
  | followRedirects =>
    obtain ⟨b, -, rfl⟩ := Checked.map_eq_good.mp h
    refine ⟨⟨{ user.fetch with followRedirects := b }, user.output⟩, rfl, fun other hname => ?_⟩
    cases other <;> first | rfl | exact absurd rfl hname
  | verifySsl =>
    obtain ⟨b, -, rfl⟩ := Checked.map_eq_good.mp h
    refine ⟨⟨{ user.fetch with verifySsl := b }, user.output⟩, rfl, fun other hname => ?_⟩
    cases other <;> first | rfl | exact absurd rfl hname
  | format =>
    obtain ⟨f, -, rfl⟩ := Checked.map_eq_good.mp h
    refine ⟨⟨user.fetch, ⟨f⟩⟩, rfl, fun other hname => ?_⟩
    cases other <;> first | rfl | exact absurd rfl hname

/-- A key takes a text for settings that differ from those of the user in one leaf, which is what
the text gives. -/
theorem exists_set_eq_ok_iff : (∃ v, user.set leaf.key text = .ok (v, new)) ↔
    leaf.given text = some (leaf.valueIn new) ∧ KeepsOthers leaf user new := by
  constructor
  · rintro ⟨v, hset⟩
    obtain ⟨hgiven, rfl, hothers⟩ := set_eq_ok_iff.mp hset
    exact ⟨hgiven, hothers⟩
  · rintro ⟨hgiven, hothers⟩
    exact ⟨_, set_eq_ok_iff.mpr ⟨hgiven, rfl, hothers⟩⟩

/-- **When a setting gets what it is in a file.** -/
theorem set_agrees_iff : (∀ new, (∃ v, user.set leaf.key text = .ok (v, new)) ↔
    ReadsText leaf user text new) ↔ leaf.Agrees text := by
  rw [Leaf.agrees_iff]
  simp only [exists_set_eq_ok_iff, readsText_iff]
  constructor
  · intro h
    -- what a text is to one reader is the setting of some settings, and so it is to the other
    refine Option.ext fun v => ⟨fun hgiven => ?_, fun hwritten => ?_⟩
    · obtain ⟨new, rfl, hothers⟩ := exists_keepsOthers user (Leaf.read_of_given hgiven)
      exact ((h new).mp ⟨hgiven, hothers⟩).1
    · obtain ⟨new, rfl, hothers⟩ := exists_keepsOthers user (Leaf.read_str_eq_good.mpr hwritten)
      exact ((h new).mpr ⟨hwritten, hothers⟩).1
  · intro h new
    rw [h]

end Put

end Settings
end Raml
