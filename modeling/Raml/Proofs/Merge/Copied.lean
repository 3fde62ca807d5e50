import Raml.Proofs.Merge.Precedence
import Raml.Proofs.Template.Fill
import Raml.Proofs.Value.Mapping

/-!
# Merging without values

The application that has no values fills in nothing: it takes over what a template says as it
stands. A merge with it always succeeds, as long as the keys of mappings differ and shapes read back
as they are written, and every field of the result is the child's or the template's (`Taken`).
Tables get the entries that they lack, except for those under keys that the rules for templates
read differently: a key that ends in a question mark.
-/

namespace Raml

/-! ## Nodes and shapes -/

mutual

/-- Whether the keys of every mapping in a node differ from each other. -/
def Value.keysDiffer : Value → Bool
  | .list items => keysDifferInItems items
  | .map entries => keysDifferInEntries entries
  | _ => true

/-- Whether the keys of every mapping in several nodes differ from each other. -/
def Value.keysDifferInItems : List Value → Bool
  | [] => true
  | v :: rest => v.keysDiffer && keysDifferInItems rest

/-- Whether the keys of a mapping, and of every mapping in it, differ from each other. -/
def Value.keysDifferInEntries : List (Value × Value) → Bool
  | [] => true
  | (k, v) :: rest =>
    (!rest.any fun e => k.same e.1) && k.keysDiffer && v.keysDiffer && keysDifferInEntries rest

end

/-- Whether a shape is read again from the node that is written for it. -/
structure Shape.ReadsBack (s : Shape) : Prop where
  keys : s.toValue.keysDiffer = true
  ofValue : Shape.ofValue s.toValue = .ok s

namespace Value

/-- A mapping whose keys differ is the mapping of its entries. -/
theorem mapOf_of_keysDiffer {entries : List (Value × Value)}
    (h : keysDifferInEntries entries = true) : mapOf entries = entries := by
  refine mapOf_of_pairwise ?_
  induction entries with
  | nil => exact .nil
  | cons e entries ih =>
    obtain ⟨k, v⟩ := e
    simp only [keysDifferInEntries, Bool.and_eq_true, Bool.not_eq_true', List.any_eq_false] at h
    exact .cons (fun e' he' => by simpa using h.1.1.1 e' he') (ih h.2)

mutual

/-- Without values a node stays as it is. -/
theorem expand_empty : ∀ {v : Value}, v.keysDiffer = true → Template.expand [] v = .ok v
  | .str s, _ => by rw [Template.expand, Template.instantiate_empty, Except.map]
  | .list items, h => by rw [Template.expand, expandItems_empty h, Except.map]
  | .map entries, h => by
      rw [Template.expand, expandEntries_empty h, Except.map, mapOf_of_keysDiffer h]
  | .null, _ | .bool _, _ | .int _, _ | .float _, _ | .bytes _, _ | .moment _, _ => rfl
  | .pair _ _, _ | .set _, _ => rfl

theorem expandItems_empty :
    ∀ {items : List Value}, keysDifferInItems items = true →
      Template.expandItems [] items = .ok items
  | [], _ => rfl
  | v :: rest, h => by
      rw [keysDifferInItems, Bool.and_eq_true] at h
      rw [Template.expandItems, expand_empty h.1, expandItems_empty h.2]
      rfl

/-- Without values, entries whose keys differ are expanded to themselves. -/
theorem expandEntries_empty :
    ∀ {entries : List (Value × Value)}, keysDifferInEntries entries = true →
      Template.expandEntries [] entries = .ok entries
  | [], _ => rfl
  | (k, v) :: rest, h => by
      simp only [keysDifferInEntries, Bool.and_eq_true] at h
      rw [Template.expandEntries, expand_empty h.1.1.2, expand_empty h.1.2,
        expandEntries_empty h.2]
      rfl

end

end Value

/-! ## Fields -/

/-- A field is taken from the child or from the template, which fills what the child leaves open. -/
def Taken {α : Type} (own other r : Option α) : Prop :=
  (r = own ∨ r = other) ∧ (own = none → r = other)

/-- A text is taken from the child or from the template; the empty text says nothing. -/
def TextTaken (own other r : Option String) : Prop :=
  (r = own ∨ r = other) ∧ (own.getD "" = "" → other.getD "" ≠ "" → r = other)

/-- A node is taken from the child or from the template, whose empty text says nothing. -/
def ValueTaken (own other r : Value) : Prop :=
  (r = own ∨ r = other) ∧ (own = .null → other ≠ .str "" → r = other)

namespace Merge

theorem text_empty (c p : Option String) :
    ∃ r, Application.empty.text c p = .ok r ∧ TextTaken c p r := by
  have hfill : ∀ {r}, Template.substitute c p [] = .ok r → Application.empty.text c p = .ok r := by
    intro r hr
    rw [Application.text]
    exact mapError_eq_ok.mpr hr
  -- a text that stands stays, and is not empty
  by_cases hstands : Template.stands c = true
  · refine ⟨c, text_of_stands hstands, .inl rfl, fun hempty => ?_⟩
    cases c with
    | none => cases hstands
    | some s =>
      obtain rfl : s = "" := hempty
      cases hstands
  · cases p with
    | none =>
      refine ⟨c, hfill ?_, .inl rfl, fun _ hne => absurd rfl hne⟩
      rw [Template.substitute, if_neg hstands]
    | some t =>
      by_cases ht : t = ""
      · refine ⟨c, hfill ?_, .inl rfl, fun _ hne => absurd ht hne⟩
        rw [Template.substitute, if_neg hstands, ht]
        rfl
      · refine ⟨some t, hfill ?_, .inr rfl, fun _ _ => rfl⟩
        rw [Template.substitute, if_neg hstands]
        simp [ht, Template.instantiate_empty, Except.map]

theorem value_empty {v : Value} (h : v.keysDiffer = true) : Application.empty.value v = .ok v :=
  mapError_eq_ok.mpr (Value.expand_empty h)

theorem name_empty (raw : String) : Application.empty.name raw = .ok raw :=
  name_eq_ok.mpr ⟨raw, Template.instantiate_empty raw, by rw [ite_self]⟩

/-- Without values a shape is instantiated to itself, if it is read back. -/
theorem instantiate_empty {s : Shape} (h : s.ReadsBack) :
    Application.empty.instantiate s = .ok s := by
  rw [Application.instantiate, value_empty h.keys]
  change ((Shape.ofValue s.toValue).mapError Error.shape >>= fun shape => pure shape) = .ok s
  rw [h.ofValue]
  rfl

/-- Without values a shape is taken as it is, unless there is one. -/
theorem shape_empty (c : Option Shape) {p : Option Shape} (h : ∀ s ∈ p, s.ReadsBack) :
    ∃ r, Application.empty.shape c p = .ok r ∧ Taken c p r := by
  cases p with
  | none => exact ⟨c, rfl, .inl rfl, id⟩
  | some s =>
    have hs : (Application.empty.instantiate s).map some = .ok (some s) := by
      rw [instantiate_empty (h s rfl)]
      rfl
    cases c with
    | none => exact ⟨some s, hs, .inr rfl, fun _ => rfl⟩
    | some c =>
      rw [Application.shape]
      split
      · exact ⟨some s, hs, .inr rfl, fun _ => rfl⟩
      · exact ⟨some c, rfl, .inl rfl, fun h => absurd h (Option.some_ne_none c)⟩

theorem anything_empty (c : Value) {p : Value} (h : p.keysDiffer = true) :
    ∃ r, anything .empty c p = .ok r ∧ ValueTaken c p r := by
  rw [anything.eq_def]
  split
  · exact ⟨c, rfl, .inl rfl, fun hnull _ => hnull⟩
  · rename_i s
    obtain ⟨r, hr, hfrom, htaken⟩ := text_empty none (some s)
    refine ⟨(r.map Value.str).getD .null, by rw [hr]; rfl, ?_, fun _ hne => ?_⟩
    · rcases hfrom with rfl | rfl
      · exact .inl rfl
      · exact .inr rfl
    · rw [htaken rfl fun hs => hne (congrArg Value.str hs)]
      rfl
  · rename_i s t
    obtain ⟨r, hr, hfrom, -⟩ := text_empty (some t) (some s)
    refine ⟨(r.map Value.str).getD .null, by rw [hr]; rfl, ?_, nofun⟩
    rcases hfrom with rfl | rfl
    · exact .inl rfl
    · exact .inr rfl
  · exact ⟨c, rfl, .inl rfl, fun hc _ => absurd hc (by assumption)⟩
  · exact ⟨p, value_empty h, .inr rfl, fun _ _ => rfl⟩
  · exact ⟨c, rfl, .inl rfl, fun hc _ => absurd hc (by assumption)⟩

theorem mapM_value_empty {vs : List Value} (h : ∀ v ∈ vs, v.keysDiffer = true) :
    vs.mapM Application.empty.value = .ok vs := by
  induction vs with
  | nil => rfl
  | cons v vs ih =>
    rw [List.forall_mem_cons] at h
    rw [List.mapM_cons, value_empty h.1, ih h.2]
    rfl

theorem choices_empty (c : Option (List Value)) {p : Option (List Value)}
    (h : ∀ v ∈ p.getD [], v.keysDiffer = true) :
    ∃ r, choices .empty c p = .ok r ∧ Taken c p r := by
  rw [choices.eq_def]
  split
  · exact ⟨c, rfl, .inl rfl, id⟩
  · rename_i vs
    have hvs : vs.mapM Application.empty.value = .ok vs := mapM_value_empty h
    exact ⟨some vs, by rw [hvs]; rfl, .inr rfl, fun _ => rfl⟩
  · exact ⟨_, rfl, .inl rfl, fun hc => absurd hc (by assumption)⟩

/-- Without values a field that may hold a template is taken as it is, unless it is given. -/
theorem templated_empty {α : Type} (k : Kind α) (label field : String)
    (c p : Option (Templated α)) :
    ∃ r, templated .empty k label field c p = .ok r ∧ Taken c p r := by
  -- with no values to put in, a text that holds a placeholder comes out as it went in
  have hretype : ∀ {s} (h : Template.hasBrackets s = true),
      retype k label field (some s) = .ok (some (.text s h)) := by
    intro s h
    rw [retype, dif_pos h]
  have htext : ∀ {c : Option String} {s}, Template.hasBrackets s = true →
      Template.stands c = false → Application.empty.text c (some s) = .ok (some s) := by
    intro c s hs hc
    have hnone : Application.empty.dictionary = [] := rfl
    rw [Application.text, Template.substitute.eq_def, hc, hnone]
    simp [Template.ne_empty_of_hasBrackets hs, Template.instantiate_empty, Application.filled,
      Except.map, Except.mapError]
  rw [templated.eq_def]
  split
  · exact ⟨c, rfl, .inl rfl, id⟩
  · rename_i s hs
    refine ⟨some (.text s hs), ?_, .inr rfl, fun _ => rfl⟩
    rw [htext hs rfl]
    exact hretype hs
  · rename_i s hs t ht
    refine ⟨some (.text s hs), ?_, .inr rfl, fun h => absurd h (Option.some_ne_none _)⟩
    rw [htext hs (by simp [Template.stands, ht])]
    exact hretype hs
  · exact ⟨_, rfl, .inl rfl, fun h => absurd h (Option.some_ne_none _)⟩
  · exact ⟨_, rfl, .inr rfl, fun _ => rfl⟩
  · exact ⟨_, rfl, .inl rfl, fun h => absurd h (Option.some_ne_none _)⟩

/-- The name of a type as it is written after it was read. -/
def rewritten (type : String) : String :=
  if type.isEmpty || Shape.isSchema type.toList then type else (Shape.ofText type).render

theorem typeName_empty (c p : Option String) :
    ∃ r, Application.empty.typeName c p = .ok r ∧
      (c = none → TextTaken none (p.map rewritten) r) := by
  rw [Application.typeName]
  split
  · rename_i hstands
    refine ⟨c, rfl, ?_⟩
    rintro rfl
    cases hstands
  · obtain ⟨merged, hmerged, hfrom, htaken⟩ := text_empty c p
    -- what is merged is rewritten once more, as an expression or not at all
    refine ⟨merged.map rewritten, ?_, ?_⟩
    · rw [hmerged]
      cases merged with
      | none => rfl
      | some t =>
        change (if t.isEmpty || Shape.isSchema t.toList then pure (some t)
          else pure (some (Shape.ofText t).render) : Except Error (Option String)) = _
        rw [Option.map_some, rewritten]
        split <;> rfl
    · rintro rfl
      refine ⟨hfrom.imp (congrArg _) (congrArg _), fun _ hne => congrArg _ (htaken rfl ?_)⟩
      intro hempty
      refine hne ?_
      cases p with
      | none => rfl
      | some t =>
        obtain rfl : t = "" := hempty
        rfl

/-- Without values each entry is taken under its key, unless the key is there. -/
theorem values_empty (c : Table Value) {p : Table Value} (h : ∀ e ∈ p, e.2.keysDiffer = true) :
    ∃ r, values .empty c p = .ok r ∧ ∀ key, r.get? key = (c.get? key).or (p.get? key) := by
  induction p generalizing c with
  | nil => exact ⟨c, rfl, fun key => by rw [Table.get?, Option.or_none]⟩
  | cons e p ih =>
    obtain ⟨key, v⟩ := e
    rw [List.forall_mem_cons] at h
    rw [values]
    split
    · -- an own value stays
      rename_i hhas
      obtain ⟨r, hr, hget⟩ := ih c h.2
      refine ⟨r, hr, fun other => ?_⟩
      rw [hget, Table.get?]
      split
      · rename_i hkey
        rw [← hkey, Option.or_of_isSome hhas, Option.or_of_isSome hhas]
      · rfl
    · -- a new key takes the template's value
      rename_i hhas
      obtain ⟨r, hr, hget⟩ := ih (c.set key v) h.2
      refine ⟨r, by rw [value_empty h.1]; exact hr, fun other => ?_⟩
      rw [hget, Table.get?]
      split
      · rename_i hkey
        have hnone : c.get? key = none := by simpa [Table.has] using hhas
        rw [← hkey, Table.get?_set_self, hnone]
        rfl
      · rename_i hkey
        rw [Table.get?_set_of_ne (Ne.symm hkey)]

/-- Entries under new keys are put behind the others. -/
theorem values_append {c p : Table Value} (hdistinct : Table.Distinct (c ++ p))
    (h : ∀ e ∈ p, e.2.keysDiffer = true) : values .empty c p = .ok (c ++ p) := by
  induction p generalizing c with
  | nil => rw [List.append_nil]; rfl
  | cons e p ih =>
    obtain ⟨key, v⟩ := e
    rw [List.forall_mem_cons] at h
    have hnew : c.has key = false := by
      rw [← Bool.not_eq_true, Table.has_iff_mem_names]
      rw [Table.Distinct, Table.names, List.map_append, List.nodup_append] at hdistinct
      exact fun hmem => hdistinct.2.2 key hmem key (List.mem_cons_self ..) rfl
    have hmore : Table.Distinct (c ++ [(key, v)] ++ p) := by rwa [List.append_assoc]
    have hrest := ih hmore h.2
    rw [List.append_assoc] at hrest
    rw [values, if_neg (by simp [hnew]), value_empty h.1]
    change values .empty (c.set key v) p = _
    rw [Table.set_of_not_has hnew]
    exact hrest

end Merge

/-! ## Parameters -/

/-- The nodes that a parameter holds. -/
def Parameter.nodes (p : Parameter) : List Value :=
  p.annotations.map Prod.snd ++ p.choices.getD [] ++ [p.sample, p.fallback, p.items]

/-- Whether the keys of every mapping in a parameter differ from each other. -/
structure Parameter.KeysDiffer (p : Parameter) : Prop where
  annotations : p.annotations.Distinct
  nodes : ∀ v ∈ p.nodes, v.keysDiffer = true

/-- The keys differ in each free value that is a field of the parameter or stands in one. -/
theorem Parameter.KeysDiffer.fields {p : Parameter} (h : p.KeysDiffer) :
    (∀ e ∈ p.annotations, e.2.keysDiffer = true) ∧
      (∀ v ∈ p.choices.getD [], v.keysDiffer = true) ∧ p.sample.keysDiffer = true ∧
      p.fallback.keysDiffer = true ∧ p.items.keysDiffer = true := by
  have hnodes := h.nodes
  simp only [Parameter.nodes, List.forall_mem_append, List.forall_mem_map, List.forall_mem_cons,
    List.not_mem_nil, false_imp_iff, implies_true, and_true, and_assoc] at hnodes
  exact hnodes

/-- A parameter as it is taken over under a key. -/
def Parameter.under (key : String) (p : Parameter) : Parameter :=
  { p with name := key, type := p.type.map Merge.rewritten }

namespace Merge

theorem TextTaken.kept {s r : Option String} (h : TextTaken none s r) : TextKept s r := by
  rintro t rfl hne
  exact h.2 rfl hne

theorem Taken.kept {α : Type} {s r : Option α} (h : Taken none s r) : Kept s r := fun _ hx =>
  (h.2 rfl).trans hx

theorem ValueTaken.kept {v r : Value} (h : ValueTaken .null v r) : ValueKept v r :=
  fun _ hne => h.2 rfl hne

/-- Merging a parameter without values succeeds. -/
theorem parameter_empty (c : Parameter) {p : Parameter} (h : p.KeysDiffer) :
    ∃ r, parameter .empty c p = .ok r := by
  -- only free values can fail to be copied, and those are the nodes of the parameter
  obtain ⟨hannotations, hchoices, hsample, hfallback, hitems⟩ := h.fields
  obtain ⟨type, htype, -⟩ := typeName_empty c.type p.type
  obtain ⟨displayName, hdisplay, -⟩ := text_empty c.displayName p.displayName
  obtain ⟨description, hdescription, -⟩ := text_empty c.description p.description
  obtain ⟨choices, hchoices, -⟩ := choices_empty c.choices hchoices
  obtain ⟨pattern, hpattern, -⟩ := text_empty c.pattern p.pattern
  obtain ⟨minLength, hminLength, -⟩ :=
    templated_empty .integer c.name "min_length" c.minLength p.minLength
  obtain ⟨maxLength, hmaxLength, -⟩ :=
    templated_empty .integer c.name "max_length" c.maxLength p.maxLength
  obtain ⟨minimum, hminimum, -⟩ := templated_empty .double c.name "minimum" c.minimum p.minimum
  obtain ⟨maximum, hmaximum, -⟩ := templated_empty .double c.name "maximum" c.maximum p.maximum
  obtain ⟨format, hformat, -⟩ := text_empty c.format p.format
  obtain ⟨sample, hsample, -⟩ := anything_empty c.sample hsample
  obtain ⟨fallback, hfallback, -⟩ := anything_empty c.fallback hfallback
  obtain ⟨repeats, hrepeats, -⟩ := templated_empty .truth c.name "repeat" c.repeats p.repeats
  obtain ⟨required, hrequired, -⟩ :=
    templated_empty .truth c.name "required" c.required p.required
  obtain ⟨items, hitems, -⟩ := anything_empty c.items hitems
  obtain ⟨annotations, hannotations, -⟩ := values_empty c.annotations hannotations
  exact ⟨{ annotations, name := c.name, displayName, description, type, choices, pattern
           minLength, maxLength, minimum, maximum, format, sample, fallback, repeats, required
           items },
    parameter_eq_ok.mpr ⟨rfl, htype, hdisplay, hdescription, hchoices, hpattern, hminLength,
      hmaxLength, hminimum, hmaximum, hformat, hsample, hfallback, hrepeats, hrequired, hitems,
      hannotations⟩⟩

/-- A parameter that is new says what the template says. -/
theorem parameter_new {key : String} {p r : Parameter} (h : p.KeysDiffer)
    (hr : parameter .empty (.named key) p = .ok r) : (p.under key).KeptIn r := by
  -- a parameter that is new starts from nothing, so each field is taken over as it is
  obtain ⟨hannotations, hchoices, hsample, hfallback, hitems⟩ := h.fields
  have hr := parameter_eq_ok.mp hr
  exact {
    name := hr.name
    type := TextTaken.kept (of_exists_ok (typeName_empty none p.type) hr.type rfl)
    displayName := TextTaken.kept (of_exists_ok (text_empty none p.displayName) hr.displayName)
    description := TextTaken.kept (of_exists_ok (text_empty none p.description) hr.description)
    choices := Taken.kept (of_exists_ok (choices_empty none hchoices) hr.choices)
    pattern := TextTaken.kept (of_exists_ok (text_empty none p.pattern) hr.pattern)
    minLength := Taken.kept (of_exists_ok (templated_empty _ _ _ none p.minLength) hr.minLength)
    maxLength := Taken.kept (of_exists_ok (templated_empty _ _ _ none p.maxLength) hr.maxLength)
    minimum := Taken.kept (of_exists_ok (templated_empty _ _ _ none p.minimum) hr.minimum)
    maximum := Taken.kept (of_exists_ok (templated_empty _ _ _ none p.maximum) hr.maximum)
    format := TextTaken.kept (of_exists_ok (text_empty none p.format) hr.format)
    sample := ValueTaken.kept (of_exists_ok (anything_empty .null hsample) hr.sample)
    fallback := ValueTaken.kept (of_exists_ok (anything_empty .null hfallback) hr.fallback)
    repeats := Taken.kept (of_exists_ok (templated_empty _ _ _ none p.repeats) hr.repeats)
    required := Taken.kept (of_exists_ok (templated_empty _ _ _ none p.required) hr.required)
    items := ValueTaken.kept (of_exists_ok (anything_empty .null hitems) hr.items)
    annotations := by
      have hnew := values_append (c := []) h.annotations hannotations
      exact Except.ok.inj (hnew.symm.trans hr.annotations) ▸ List.prefix_refl _ }

/-! ## Tables -/

theorem target_empty {α : Type} (children : Table α) (raw : String) :
    target .empty children raw = .ok (targetOf children raw) := by
  rw [target, name_empty]
  rfl

/-- An escaped mark ends in a mark. -/
theorem endsWith_mark_of_escaped {key : String} (h : Text.endsWith "\\?" key = true) :
    Text.endsWith "?" key = true := by
  rw [Text.endsWith, List.isSuffixOf_iff_suffix] at h ⊢
  exact List.IsSuffix.trans ⟨['\\'], rfl⟩ h

theorem endsWith_append (s tail : String) : Text.endsWith tail (s ++ tail) = true := by
  rw [Text.endsWith, List.isSuffixOf_iff_suffix, String.toList_append]
  exact List.suffix_append _ _

/-- A key without a mark is where its entry goes. -/
theorem targetOf_of_unmarked {α : Type} {children : Table α} {key : String}
    (hkey : Text.endsWith "?" key = false) : targetOf children key = some key := by
  have hescaped : Text.endsWith "\\?" key = false := by
    rw [← Bool.not_eq_true] at hkey ⊢
    exact fun h => hkey (endsWith_mark_of_escaped h)
  rw [targetOf, hescaped, hkey, if_neg Bool.false_ne_true, if_neg Bool.false_ne_true]

/-- No other entry goes to a key without a mark that is not there yet. -/
theorem targetOf_ne {α : Type} {children : Table α} {key raw target : String}
    (hkey : Text.endsWith "?" key = false) (hnone : children.get? key = none) (hne : raw ≠ key)
    (h : targetOf children raw = some target) : target ≠ key := by
  rintro rfl
  rw [targetOf] at h
  split at h
  · rw [← Option.some.inj h, endsWith_append] at hkey
    cases hkey
  · split at h
    · simp only at h
      split at h
      · rename_i hhas
        rw [Option.some.inj h, Table.has, hnone] at hhas
        cases hhas
      · split at h
        · exact hne (Option.some.inj h)
        · cases h
    · exact hne (Option.some.inj h)

section Tables

variable {α : Type} {key : String} {c p r : Table α}

theorem additions_cons {make : α → Except Error α} {raw : String} {a : α} (ha : make a = .ok a) :
    additions .empty make c ((raw, a) :: p) =
      match targetOf c raw with
      | none => additions .empty make c p
      | some target =>
        if c.has target then additions .empty make c p
        else additions .empty make (c.set target a) p := by
  rw [additions, target_empty]
  simp only [ha]
  rfl

theorem table_cons {merge : α → α → Except Error α} {create : String → α} {raw : String} {a : α} :
    table .empty merge create c ((raw, a) :: p) =
      match targetOf c raw with
      | none => table .empty merge create c p
      | some target => (do
        let merged ← merge ((c.get? target).getD (create target)) a
        table .empty merge create (c.set target merged) p) := by
  rw [table, target_empty]
  rfl

/-- An entry under a new key is found there, and under no other key without a mark. -/
theorem get?_set_target {raw target : String} {a : α} (htarget : targetOf c raw = some target)
    (hnone : c.get? target = none) (hkey : Text.endsWith "?" key = false) :
    (c.set target a).get? key = (c.get? key).or (if raw = key then some a else none) := by
  by_cases heq : key = target
  · subst heq
    have hraw : raw = key := by
      by_contra hne
      exact targetOf_ne hkey hnone hne htarget rfl
    rw [Table.get?_set_self, hnone, if_pos hraw]
    rfl
  · rw [Table.get?_set_of_ne heq, if_neg, Option.or_none]
    rintro rfl
    rw [targetOf_of_unmarked hkey] at htarget
    exact heq (Option.some.inj htarget)

/-- What one entry of the template adds: itself, if nothing stands under its key yet. -/
theorem additions_step {make : α → Except Error α} {raw : String} {a : α} (ha : make a = .ok a) :
    ∃ c', additions .empty make c ((raw, a) :: p) = additions .empty make c' p ∧
      ∀ key, Text.endsWith "?" key = false →
        c'.get? key = (c.get? key).or (if raw = key then some a else none) := by
  -- nothing is added if the entry goes nowhere or to a key that is there
  have hstays : (∀ key, Text.endsWith "?" key = false → raw = key → c.has key = true) →
      ∀ key, Text.endsWith "?" key = false →
        c.get? key = (c.get? key).or (if raw = key then some a else none) := by
    intro hhas key hkey
    split
    · rename_i heq
      rw [Option.or_of_isSome (hhas key hkey heq)]
    · rw [Option.or_none]
  rw [additions_cons ha]
  cases htarget : targetOf c raw with
  | none =>
    refine ⟨c, rfl, hstays fun key hkey => ?_⟩
    rintro rfl
    rw [targetOf_of_unmarked hkey] at htarget
    cases htarget
  | some target =>
    simp only
    split
    · rename_i hhas
      refine ⟨c, rfl, hstays fun key hkey => ?_⟩
      rintro rfl
      rw [targetOf_of_unmarked hkey] at htarget
      rwa [Option.some.inj htarget]
    · rename_i hhas
      exact ⟨c.set target a, rfl, fun key => get?_set_target htarget (Table.get?_of_not_has hhas)⟩

/-- Entries that are made without values are put in under their keys, unless these are there. -/
theorem additions_empty {make : α → Except Error α} (hmake : ∀ e ∈ p, make e.2 = .ok e.2) :
    ∃ r, additions .empty make c p = .ok r ∧
      ∀ key, Text.endsWith "?" key = false → r.get? key = (c.get? key).or (p.get? key) := by
  induction p generalizing c with
  | nil => exact ⟨c, rfl, fun key _ => by rw [Table.get?, Option.or_none]⟩
  | cons e p ih =>
    obtain ⟨raw, a⟩ := e
    rw [List.forall_mem_cons] at hmake
    obtain ⟨c', hstep, hget'⟩ := additions_step hmake.1
    obtain ⟨r, hr, hget⟩ := ih (c := c') hmake.2
    refine ⟨r, hstep.trans hr, fun key hkey => ?_⟩
    rw [hget key hkey, hget' key hkey, Option.or_assoc, Table.get?]
    split <;> rfl

/-- Without values a table can be merged if its values can be. -/
theorem table_empty {merge : α → α → Except Error α} {create : String → α}
    (hmerge : ∀ e ∈ p, ∀ old, ∃ new, merge old e.2 = .ok new) :
    ∃ r, table .empty merge create c p = .ok r := by
  induction p generalizing c with
  | nil => exact ⟨c, rfl⟩
  | cons e p ih =>
    obtain ⟨raw, a⟩ := e
    rw [List.forall_mem_cons] at hmerge
    rw [table_cons]
    cases targetOf c raw with
    | none => exact ih hmerge.2
    | some key =>
      obtain ⟨new, hnew⟩ := hmerge.1 ((c.get? key).getD (create key))
      obtain ⟨r, hr⟩ := ih (c := c.set key new) hmerge.2
      exact ⟨r, by simp only [hnew]; exact hr⟩

/-- What a new entry says is still said when the other entries are merged. -/
theorem table_new {merge : α → α → Except Error α} {create : String → α} {a : α} {G : α → Prop}
    (hkey : Text.endsWith "?" key = false) (hnone : c.get? key = none)
    (ha : p.get? key = some a) (hcreate : ∀ new, merge (create key) a = .ok new → G new)
    (hmerge : ∀ old parent new, G old → merge old parent = .ok new → G new)
    (h : table .empty merge create c p = .ok r) : ∃ q, r.get? key = some q ∧ G q := by
  induction p generalizing c with
  | nil => cases ha
  | cons e p ih =>
    obtain ⟨raw, parent⟩ := e
    rw [table_cons] at h
    rw [Table.get?] at ha
    split at ha
    · rename_i heq
      obtain rfl := Option.some.inj ha
      rw [heq, targetOf_of_unmarked hkey] at h
      obtain ⟨new, hnew, h⟩ := bind_eq_ok.mp h
      rw [hnone] at hnew
      -- from here on the entry is only merged into
      have hext : Table.Extends (fun a a' => G a → G a') (c.set key new) r :=
        table_extends (fun _ _ old parent new hold hmerged hG => hmerge old parent new (hold hG)
          hmerged) (Table.extends_refl (fun _ => id) _) h
      obtain ⟨q, hq, hG⟩ := Table.get?_of_extends hext (Table.get?_set_self key new c)
      exact ⟨q, hq, hG (hcreate new hnew)⟩
    · rename_i hne
      cases htarget : targetOf c raw with
      | none =>
        rw [htarget] at h
        exact ih hnone ha h
      | some target =>
        rw [htarget] at h
        obtain ⟨new, hnew, h⟩ := bind_eq_ok.mp h
        have hother : key ≠ target := (targetOf_ne hkey hnone hne htarget).symm
        exact ih ((Table.get?_set_of_ne hother new c).trans hnone) ha h

end Tables

theorem parameters_empty (c : Table Parameter) {p : Table Parameter}
    (h : ∀ e ∈ p, e.2.KeysDiffer) : ∃ r, parameters .empty c p = .ok r :=
  table_empty fun e he old => parameter_empty old (h e he)

/-- A parameter of the template under a key without a mark, where there was none. -/
theorem parameters_new {key : String} {c p r : Table Parameter} {a : Parameter}
    (hr : parameters .empty c p = .ok r) (hkey : Text.endsWith "?" key = false)
    (hnone : c.get? key = none) (ha : p.get? key = some a) (hdiffer : a.KeysDiffer) :
    ∃ q, r.get? key = some q ∧ (IsPlain (a.under key).texts → (a.under key).KeptIn q) := by
  refine table_new (G := fun q => IsPlain (a.under key).texts → (a.under key).KeptIn q) hkey hnone
    ha ?_ ?_ hr
  · exact fun new hnew _ => parameter_new hdiffer hnew
  · exact fun old parent new hold hnew hplain =>
      parameter_kept hplain (hold hplain) hnew

/-- A parameter that is there is kept. -/
theorem parameters_own {key : String} {c p r : Table Parameter} {a : Parameter}
    (hr : parameters .empty c p = .ok r) (ha : c.get? key = some a) :
    ∃ q, r.get? key = some q ∧ (IsPlain a.texts → a.KeptIn q) := by
  have hext : Table.Extends (fun a a' : Parameter => IsPlain a.texts → a.KeptIn a') c r :=
    table_extends (fun _ _ old parent new hold hnew hplain =>
      parameter_kept hplain (hold hplain) hnew)
      (Table.extends_refl (fun a _ => a.keptIn_refl) c) hr
  exact Table.get?_of_extends hext ha

end Merge

/-! ## Bodies -/

/-- Whether a body can be taken over as it stands: its shapes read back as they are written, and the
keys of every mapping in it differ. -/
structure Body.ReadsBack (b : Body) : Prop where
  type : ∀ s ∈ b.type, s.ReadsBack
  items : ∀ s ∈ b.items, s.ReadsBack
  properties : ∀ e ∈ b.properties, e.2.ReadsBack
  sample : b.sample.keysDiffer = true
  headers : ∀ e ∈ b.headers, e.2.KeysDiffer
  facets : ∀ e ∈ b.facets, e.2.keysDiffer = true
  annotations : ∀ e ∈ b.annotations, e.2.keysDiffer = true

namespace Merge

/-- What a body has when another one is taken over into it. -/
structure BodyJoined (own other r : Body) : Prop where
  type : Taken own.type other.type r.type
  items : Taken own.items other.items r.items
  schema : TextTaken own.schema other.schema r.schema
  description : TextTaken own.description other.description r.description
  sample : ValueTaken own.sample other.sample r.sample
  ownProperties : own.properties <+: r.properties
  properties : ∀ key, Text.endsWith "?" key = false →
    r.properties.get? key = (own.properties.get? key).or (other.properties.get? key)
  ownHeaders : ∀ key p, own.headers.get? key = some p →
    ∃ q, r.headers.get? key = some q ∧ (IsPlain p.texts → p.KeptIn q)
  headers : ∀ key p, Text.endsWith "?" key = false → own.headers.get? key = none →
    other.headers.get? key = some p →
      ∃ q, r.headers.get? key = some q ∧ (IsPlain (p.under key).texts → (p.under key).KeptIn q)
  facets : ∀ key, r.facets.get? key = (own.facets.get? key).or (other.facets.get? key)
  annotations : ∀ key,
    r.annotations.get? key = (own.annotations.get? key).or (other.annotations.get? key)

/-- Merging a body without values succeeds, and joins the two. -/
theorem body_empty (own : Body) {other : Body} (h : other.ReadsBack) :
    ∃ r, body .empty own other = .ok r ∧ BodyJoined own other r := by
  -- each field is joined by itself; of the tables only what the other body adds is of interest
  obtain ⟨type, htype, htype'⟩ := shape_empty own.type h.type
  obtain ⟨items, hitems, hitems'⟩ := shape_empty own.items h.items
  obtain ⟨schema, hschema, hschema'⟩ := text_empty own.schema other.schema
  obtain ⟨description, hdescription, hdescription'⟩ :=
    text_empty own.description other.description
  obtain ⟨sample, hsample, hsample'⟩ := anything_empty own.sample h.sample
  obtain ⟨properties, hproperties, hproperties'⟩ :=
    additions_empty (c := own.properties) fun e he => instantiate_empty (h.properties e he)
  obtain ⟨headers, hheaders⟩ := parameters_empty own.headers h.headers
  obtain ⟨facets, hfacets, hfacets'⟩ := values_empty own.facets h.facets
  obtain ⟨annotations, hannotations, hannotations'⟩ :=
    values_empty own.annotations h.annotations
  refine ⟨{ annotations, type, items, properties, schema, description, sample, headers, facets },
    body_eq_ok.mpr ⟨htype, hitems, hschema, hdescription, hsample, hproperties, hheaders, hfacets,
      hannotations⟩, ?_⟩
  exact {
    type := htype'
    items := hitems'
    schema := hschema'
    description := hdescription'
    sample := hsample'
    ownProperties := additions_grow hproperties
    properties := hproperties'
    ownHeaders := fun _ _ hp => parameters_own hheaders hp
    headers := fun key p hkey hnone hp => parameters_new hheaders hkey hnone hp
      (h.headers (key, p) (Table.mem_of_get? hp))
    facets := hfacets'
    annotations := hannotations' }

end Merge
end Raml
