import Raml.Proofs.Outcome
import Raml.Proofs.Read.Checked
import Raml.Proofs.Value.Mapping
import Raml.Settings.Key

/-!
# A setting gets a new value

A key leads through the groups to a single setting, and a new value is put there and nowhere else
(`leaf?_putLeaf`). The new value is of the kind that the setting has, so the mapping with it is that
of some settings, and reading it gives those (`set_spec`).
-/

namespace Raml.Settings

variable {key other text : String} {v w : Value} {s new : Settings}

/-! ## One key among others -/

/-- A key is known by its names. -/
theorem namesOf_inj : namesOf key = namesOf other ↔ key = other := by
  refine ⟨fun h => ?_, congrArg _⟩
  have hsplit : Text.split '.' key.toList = Text.split '.' other.toList :=
    List.map_injective_iff.mpr (fun _ _ => String.ofList_injective) h
  have hjoin := congrArg (Text.join ['.']) hsplit
  rw [Text.join_split, Text.join_split] at hjoin
  exact String.toList_injective hjoin

/-- Whether a value is a mapping, which no single setting is. -/
def IsGroup (v : Value) : Prop := ∃ es, v = .map es

theorem leaf?_last (name : String) (es : List (Value × Value)) : leaf? key [name] es =
    match Value.get? name es with
    | none => .error (.unknownKey key)
    | some (.map _) => .error (.unknownKey key)
    | some v => .ok v :=
  rfl

theorem leaf?_step (name next : String) (rest : List String) (es : List (Value × Value)) :
    leaf? key (name :: next :: rest) es =
      match Value.get? name es with
      | some (.map group) => leaf? key (next :: rest) group
      | _ => .error (.invalidKey key) :=
  rfl

theorem putLeaf_last (name : String) (es : List (Value × Value)) :
    putLeaf v [name] es = Value.insert (.str name) v es :=
  rfl

theorem putLeaf_step (name next : String) (rest : List String) (es : List (Value × Value)) :
    putLeaf v (name :: next :: rest) es =
      match Value.get? name es with
      | some (.map group) => Value.insert (.str name) (.map (putLeaf v (next :: rest) group)) es
      | _ => es :=
  rfl

/-- A single name stands for a leaf if it has a value that is no group. -/
theorem leaf?_singleton {name : String} {es : List (Value × Value)} :
    leaf? key [name] es = .ok v ↔ Value.get? name es = some v ∧ ¬IsGroup v := by
  rw [leaf?_last]
  split
  · next h => simp [h]
  · next h =>
    rw [h]
    exact ⟨nofun, fun hv => absurd ⟨_, (Option.some.inj hv.1).symm⟩ hv.2⟩
  · next w hw h =>
    rw [h]
    constructor
    · rintro ⟨⟩
      exact ⟨rfl, fun ⟨es, he⟩ => hw es he⟩
    · rintro ⟨⟨⟩, -⟩
      rfl

theorem leaf?_of_group {name next : String} {rest : List String} {es group : List (Value × Value)}
    (h : Value.get? name es = some (.map group)) :
    leaf? key (name :: next :: rest) es = leaf? key (next :: rest) group := by
  rw [leaf?_step, h]

/-- Names that go on after a single setting lead nowhere. -/
theorem leaf?_of_not_isGroup {name next : String} {rest : List String} {es : List (Value × Value)}
    (h : Value.get? name es = some v) (hv : ¬IsGroup v) :
    leaf? key (name :: next :: rest) es = .error (.invalidKey key) := by
  rw [leaf?_step, h]
  split
  · next group hget => exact absurd ⟨group, Option.some.inj hget⟩ hv
  · rfl

/-- A key of several names goes into a group. -/
theorem exists_group_of_leaf? {name next : String} {rest : List String} {es : List (Value × Value)}
    (h : leaf? key (name :: next :: rest) es = .ok v) :
    ∃ group, Value.get? name es = some (.map group) := by
  rw [leaf?_step] at h
  split at h
  · next group hget => exact ⟨group, hget⟩
  · cases h

/-- What a key stands for is in the group of its first name alone. -/
theorem leaf?_congr {name : String} {es es' : List (Value × Value)}
    (h : Value.get? name es' = Value.get? name es) (rest : List String) :
    leaf? key (name :: rest) es' = leaf? key (name :: rest) es := by
  cases rest with
  | nil => rw [leaf?_last, leaf?_last, h]
  | cons next rest => rw [leaf?_step, leaf?_step, h]

theorem get?_putLeaf_singleton (name m : String) (es : List (Value × Value)) :
    Value.get? m (putLeaf v [name] es) = if m = name then some v else Value.get? m es := by
  rw [putLeaf_last, Value.get?_insert]

/-- A leaf that is put into a group changes that group and no other entry. -/
theorem get?_putLeaf_of_group {name next : String} {rest : List String}
    {es group : List (Value × Value)} (h : Value.get? name es = some (.map group)) (m : String) :
    Value.get? m (putLeaf v (name :: next :: rest) es) =
      if m = name then some (.map (putLeaf v (next :: rest) group)) else Value.get? m es := by
  rw [putLeaf_step, h, Value.get?_insert]

/-- **A new value comes to one place.** Along the names that lead to the setting: all other names
lead to what they led to. -/
theorem leaf?_putLeaf {names : List String} {es : List (Value × Value)}
    (h : leaf? key names es = .ok w) (hv : ¬IsGroup v) (others : List String) :
    leaf? other others (putLeaf v names es) =
      if others = names then .ok v else leaf? other others es := by
  -- the induction goes down the names of the leaf, and the other key is followed beside it
  induction names generalizing es others with
  | nil => cases h
  | cons name rest ih =>
    cases others with
    | nil => rfl
    | cons m others =>
      by_cases hm : m = name
      · -- the same first name, and what differs comes after it
        subst hm
        cases rest with
        | nil =>
          obtain ⟨hget, hw⟩ := leaf?_singleton.mp h
          have hput : Value.get? m (putLeaf v [m] es) = some v := by
            rw [get?_putLeaf_singleton, if_pos rfl]
          cases others with
          | nil => rw [if_pos rfl, leaf?_singleton.mpr ⟨hput, hv⟩]
          | cons n others =>
            rw [if_neg (by simp), leaf?_of_not_isGroup hput hv, leaf?_of_not_isGroup hget hw]
        | cons next rest =>
          obtain ⟨group, hgroup⟩ := exists_group_of_leaf? h
          rw [leaf?_of_group hgroup] at h
          have hput : Value.get? m (putLeaf v (m :: next :: rest) es) =
              some (.map (putLeaf v (next :: rest) group)) := by
            rw [get?_putLeaf_of_group hgroup, if_pos rfl]
          cases others with
          | nil => rw [if_neg (by simp), leaf?_last, leaf?_last, hput, hgroup]
          | cons n others =>
            rw [leaf?_of_group hput, leaf?_of_group hgroup, ih h]
            simp only [List.cons.injEq, true_and]
      · -- the first name leads elsewhere
        have hput : Value.get? m (putLeaf v (name :: rest) es) = Value.get? m es := by
          cases rest with
          | nil => rw [get?_putLeaf_singleton, if_neg hm]
          | cons next rest =>
            obtain ⟨group, hgroup⟩ := exists_group_of_leaf? h
            rw [get?_putLeaf_of_group hgroup, if_neg hm]
        rw [leaf?_congr hput, if_neg fun he => hm (List.cons.inj he).1]

/-! ## The four settings -/

/-- What is written of settings is read as those settings. -/
theorem read_of_toValue (s : Settings) : Settings.read s.toValue = .good s := by
  obtain ⟨⟨x, a, b⟩, ⟨f⟩⟩ := s
  rfl

/-- The names of the single settings, with what they are. -/
inductive IsLeaf (s : Settings) : List String → Value → Prop where
  | timeout : IsLeaf s ["fetch", "timeout"] (.float s.fetch.timeout)
  | followRedirects : IsLeaf s ["fetch", "follow_redirects"] (.bool s.fetch.followRedirects)
  | verifySsl : IsLeaf s ["fetch", "verify_ssl"] (.bool s.fetch.verifySsl)
  | format : IsLeaf s ["output", "format"] (.str s.output.format)

/-- In a group of single settings one more name leads to one of them. -/
theorem of_leaf?_of_flat {name : String} {rest : List String} {es : List (Value × Value)}
    (hflat : ∀ e ∈ es, ¬IsGroup e.2) (h : leaf? key (name :: rest) es = .ok w) :
    rest = [] ∧ Value.get? name es = some w := by
  cases rest with
  | nil => exact ⟨rfl, (leaf?_singleton.mp h).1⟩
  | cons next rest =>
    obtain ⟨group, hgroup⟩ := exists_group_of_leaf? h
    obtain ⟨e, he, hvalue⟩ := Value.mem_of_get? hgroup
    exact absurd ⟨group, hvalue⟩ (hflat e he)

theorem of_get?_entries {name : String} (h : Value.get? name s.entries = some v) :
    name = "fetch" ∧ v = s.fetch.toValue ∨ name = "output" ∧ v = s.output.toValue := by
  simp only [entries, Value.get?_cons_str] at h
  split_ifs at h with hfetch houtput
  · exact .inl ⟨hfetch, (Option.some.inj h).symm⟩
  · exact .inr ⟨houtput, (Option.some.inj h).symm⟩
  · cases h

theorem isLeaf_fetch {name : String} {rest : List String} {group : List (Value × Value)}
    (hgroup : Value.map group = s.fetch.toValue) (h : leaf? key (name :: rest) group = .ok w) :
    s.IsLeaf ("fetch" :: name :: rest) w := by
  cases hgroup
  obtain ⟨rfl, hget⟩ := of_leaf?_of_flat (by simp [IsGroup]) h
  simp only [Value.get?_cons_str] at hget
  split_ifs at hget with htimeout hfollow hverify
  · cases hget
    exact htimeout ▸ .timeout
  · cases hget
    exact hfollow ▸ .followRedirects
  · cases hget
    exact hverify ▸ .verifySsl
  · cases hget

theorem isLeaf_output {name : String} {rest : List String} {group : List (Value × Value)}
    (hgroup : Value.map group = s.output.toValue) (h : leaf? key (name :: rest) group = .ok w) :
    s.IsLeaf ("output" :: name :: rest) w := by
  cases hgroup
  obtain ⟨rfl, hget⟩ := of_leaf?_of_flat (by simp [IsGroup]) h
  simp only [Value.get?_cons_str] at hget
  split_ifs at hget with hformat
  · cases hget
    exact hformat ▸ .format
  · cases hget

/-- Names lead to a single setting, or to none. -/
theorem isLeaf_of_leaf? {names : List String} (h : leaf? key names s.entries = .ok w) :
    s.IsLeaf names w := by
  match names with
  | [] => cases h
  | [name] =>
    obtain ⟨hget, hw⟩ := leaf?_singleton.mp h
    rcases of_get?_entries hget with ⟨-, rfl⟩ | ⟨-, rfl⟩
    · exact absurd ⟨_, rfl⟩ hw
    · exact absurd ⟨_, rfl⟩ hw
  | name :: next :: rest =>
    obtain ⟨group, hgroup⟩ := exists_group_of_leaf? h
    rw [leaf?_of_group hgroup] at h
    rcases of_get?_entries hgroup with ⟨rfl, hfetch⟩ | ⟨rfl, houtput⟩
    · exact isLeaf_fetch hfetch h
    · exact isLeaf_output houtput h

/-! ## A new value -/

/-- What a setting gets is of the kind that it has, so the mapping with it is that of settings. -/
theorem exists_entries_of_coerce {names : List String} (hleaf : s.IsLeaf names w)
    (h : coerce key text w = .ok v) :
    ¬IsGroup v ∧ ∃ new : Settings, new.entries = putLeaf v names s.entries ∧
      (new.output = s.output ∨ names = ["output", "format"] ∧ new.output.format = text) := by
  obtain ⟨⟨x, a, b⟩, ⟨f⟩⟩ := s
  -- each leaf takes a text in its own way, but all of them are put in by the same lemmas
  cases hleaf with
  | timeout =>
    rw [coerce] at h
    split at h
    · next y _ =>
      cases h
      refine ⟨by rintro ⟨_, ⟨⟩⟩, ⟨⟨y.toFloat, a, b⟩, ⟨f⟩⟩, ?_, .inl rfl⟩
      simp [entries, FetchSettings.toValue, putLeaf_step, putLeaf_last, Value.get?_cons_str,
        Value.insert, Value.same_str_str]
    · cases h
  | followRedirects =>
    cases h
    refine ⟨by rintro ⟨_, ⟨⟩⟩,
      ⟨⟨x, onWords.contains (Text.Unicode.toLower text), b⟩, ⟨f⟩⟩, ?_, .inl rfl⟩
    simp [entries, FetchSettings.toValue, putLeaf_step, putLeaf_last, Value.get?_cons_str,
      Value.insert, Value.same_str_str]
  | verifySsl =>
    cases h
    refine ⟨by rintro ⟨_, ⟨⟩⟩,
      ⟨⟨x, a, onWords.contains (Text.Unicode.toLower text)⟩, ⟨f⟩⟩, ?_, .inl rfl⟩
    simp [entries, FetchSettings.toValue, putLeaf_step, putLeaf_last, Value.get?_cons_str,
      Value.insert, Value.same_str_str]
  | format =>
    cases h
    refine ⟨by rintro ⟨_, ⟨⟩⟩, ⟨⟨x, a, b⟩, ⟨text⟩⟩, ?_, .inr ⟨rfl, rfl⟩⟩
    simp [entries, OutputSettings.toValue, putLeaf_step, putLeaf_last, Value.get?_cons_str,
      Value.insert, Value.same_str_str]

/-- What giving a setting a new value does. -/
structure Changes (s : Settings) (key text : String) (v : Value) (new : Settings) : Prop where
  /-- The value is what the text stands for where the setting is. -/
  value : ∃ w, leaf? key (namesOf key) s.entries = .ok w ∧ coerce key text w = .ok v
  /-- Each key leads to what it led to, but for the one. -/
  leaf : ∀ other, leaf? other (namesOf other) new.entries =
    if other = key then .ok v else leaf? other (namesOf other) s.entries
  output : new.output = s.output ∨ key = "output.format" ∧ new.output.format = text

/-- **A setting gets a new value, and no other setting does.** -/
theorem set_spec (h : s.set key text = .ok (v, new)) : s.Changes key text v new := by
  rw [set] at h
  obtain ⟨w, hleaf, h⟩ := bind_eq_ok.mp h
  obtain ⟨v', hcoerce, h⟩ := bind_eq_ok.mp h
  obtain ⟨hv, new', hentries, houtput⟩ := exists_entries_of_coerce (isLeaf_of_leaf? hleaf) hcoerce
  have hread : Settings.read (.map new'.entries) = .good new' := read_of_toValue new'
  rw [← hentries, hread] at h
  cases h
  refine ⟨⟨w, hleaf, hcoerce⟩, fun other => ?_, houtput.imp_right fun hformat => ?_⟩
  · rw [hentries, leaf?_putLeaf hleaf hv]
    simp only [namesOf_inj]
  · have hnames : namesOf "output.format" = ["output", "format"] := by decide
    exact ⟨namesOf_inj.mp (hformat.1.trans hnames.symm), hformat.2⟩

end Raml.Settings
