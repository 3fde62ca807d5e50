import Raml.Proofs.Merge.Copied
import Raml.Proofs.Normal.Entity
import Raml.Proofs.Shape.Instantiate

/-!
# Folding a flat body

When a message has a flat body and bodies for media types, the flat one is taken over into each of
them and is gone. `normalize_folds` says that nothing of it is lost on the way: what a body does not
say itself it has from the flat body, in normal form.

The rules are those for templates, where a key that ends in a question mark is merged only into what
is there already. So a flat body must not have such a key that a body knows neither with its mark
nor without (`MarksAreMet`); what it holds under one is lost otherwise (`marked_property_lost`).
-/

namespace Raml

/-! ## Types that read back -/

open Shape.Expression in
/-- What the text of a type is read as reads back, unless it has blank parentheses or ones that do
not match inside a placeholder, or is an array of schemas. -/
theorem Shape.readsBack_ofText {t : String} (ht : Text.allBlank t = false)
    (hmatch : HolesMatch [] t.toList) (hpair : hasBlankPair t.toList = false)
    (hplain : StaysPlain (ofText t) (ofText t)) : (ofText t).ReadsBack := by
  rw [ofText] at hplain
  obtain ⟨w, hw, hread, -, hblank⟩ := fill_render hmatch (Template.fill_empty _) hplain
  obtain rfl := Except.ok.inj ((Template.fill_empty _).symm.trans hw)
  constructor
  · rw [ofText, toValue_ofChars]
    rfl
  · have hfull : Text.allBlank (ofChars t.toList).render = false := by
      rw [← Bool.not_eq_true, allBlank_iff, hblank hpair, ← allBlank_iff, ht]
      exact Bool.false_ne_true
    rw [ofText, toValue_ofChars, ofValue_str, hfull, if_neg Bool.false_ne_true, ofText, hread]

/-! ## What a body has afterwards -/

/-- Whether every key that ends in a question mark is found, with the mark or without, among those
that are there, or without it among its like. -/
def MarksAreMet {α : Type} (own flat : Table α) : Prop :=
  ∀ key ∈ flat.names, Text.endsWith "?" key = true →
    own.has key = true ∨ own.has (Text.dropLast 1 key) = true ∨
      flat.has (Text.dropLast 1 key) = true ∧ Text.endsWith "?" (Text.dropLast 1 key) = false

instance {α : Type} (own flat : Table α) : Decidable (MarksAreMet own flat) :=
  inferInstanceAs (Decidable (∀ key ∈ flat.names, _))

/-- What a body has after the flat body was folded into it and it was normalized. -/
structure Body.HasFolded (own flat r : Body) : Prop where
  /-- The type and the items are those of one of the two bodies, in short form. -/
  typed : ∃ type items, Taken own.type flat.type type ∧ Taken own.items flat.items items ∧
    (r.type, r.items) =
      Shape.collapse (Shape.normalizeOption type) (Shape.normalizeOption items)
  schema : TextTaken own.schema flat.schema r.schema
  description : TextTaken own.description flat.description r.description
  sample : ValueTaken own.sample flat.sample r.sample
  ownProperties : ∀ key s, own.properties.get? key = some s →
    r.properties.get? key = some s.normalize
  properties : ∀ key s, Text.endsWith "?" key = false → own.properties.get? key = none →
    flat.properties.get? key = some s → r.properties.get? key = some s.normalize
  markedProperties : ∀ key ∈ flat.properties.names, Text.endsWith "?" key = true →
    r.properties.has key = true ∨ r.properties.has (Text.dropLast 1 key) = true
  ownHeaders : ∀ key p, own.headers.get? key = some p →
    ∃ q, r.headers.get? key = some (q.normalize key) ∧ (IsPlain p.texts → p.KeptIn q)
  headers : ∀ key p, Text.endsWith "?" key = false → own.headers.get? key = none →
    flat.headers.get? key = some p →
      ∃ q, r.headers.get? key = some (q.normalize key) ∧
        (IsPlain (p.under key).texts → (p.under key).KeptIn q)
  markedHeaders : ∀ key ∈ flat.headers.names, Text.endsWith "?" key = true →
    r.headers.has key = true ∨ r.headers.has (Text.dropLast 1 key) = true
  facets : ∀ key, r.facets.get? key = (own.facets.get? key).or (flat.facets.get? key)
  annotations : ∀ key,
    r.annotations.get? key = (own.annotations.get? key).or (flat.annotations.get? key)

/-! ## Normalized tables -/

theorem Shape.get?_normalizeEntries (key : String) (ps : Table Shape) :
    Table.get? key (normalizeEntries ps) = (ps.get? key).map normalize := by
  induction ps with
  | nil => rfl
  | cons e ps ih =>
    obtain ⟨name, s⟩ := e
    rw [normalizeEntries, Table.get?, Table.get?]
    split
    · rfl
    · exact ih

/-- Normalizing a table of parameters does so to each under its key. -/
theorem Parameter.get?_normalizeTable (key : String) (t : Table Parameter) :
    (normalizeTable t).get? key = (t.get? key).map (Parameter.normalize key) := by
  induction t with
  | nil => rfl
  | cons e t ih =>
    obtain ⟨name, p⟩ := e
    rw [normalizeTable, List.map_cons, Table.get?, Table.get?]
    split
    · rename_i hname
      rw [hname]
      rfl
    · exact ih

/-- Keys with a mark are found if they are met, and every other key is found. -/
theorem marked_of_met {α : Type} {own flat r : Table α} (hmet : MarksAreMet own flat)
    (hown : ∀ key a, own.get? key = some a → ∃ b, r.get? key = some b)
    (hflat : ∀ key a, Text.endsWith "?" key = false → own.get? key = none →
      flat.get? key = some a → ∃ b, r.get? key = some b) :
    ∀ key ∈ flat.names, Text.endsWith "?" key = true →
      r.has key = true ∨ r.has (Text.dropLast 1 key) = true := by
  have hfound : ∀ key, own.has key = true → r.has key = true := by
    intro key h
    obtain ⟨a, ha⟩ := Table.has_iff_exists.mp h
    exact Table.has_iff_exists.mpr (hown key a ha)
  intro key hkey hmark
  rcases hmet key hkey hmark with h | h | ⟨h, hbase⟩
  · exact .inl (hfound key h)
  · exact .inr (hfound _ h)
  · by_cases hhas : own.has (Text.dropLast 1 key) = true
    · exact .inr (hfound _ hhas)
    · obtain ⟨a, ha⟩ := Table.has_iff_exists.mp h
      exact .inr (Table.has_iff_exists.mpr (hflat _ a hbase (Table.get?_of_not_has hhas) ha))

namespace Body

/-- Normalizing a body that was joined keeps what was folded into it. -/
theorem hasFolded_normalize {own flat r : Body} (h : Merge.BodyJoined own flat r)
    (hproperties : MarksAreMet own.properties flat.properties)
    (hheaders : MarksAreMet own.headers flat.headers) : own.HasFolded flat r.normalize := by
  have hown : ∀ key s, own.properties.get? key = some s →
      r.normalize.properties.get? key = some s.normalize := by
    intro key s hs
    obtain ⟨more, hmore⟩ := h.ownProperties
    rw [Body.normalize, Shape.get?_normalizeEntries, ← hmore, Table.get?_append, hs]
    rfl
  -- what the body does not declare itself comes from the flat one
  have hflat : ∀ key s, Text.endsWith "?" key = false → own.properties.get? key = none →
      flat.properties.get? key = some s →
        r.normalize.properties.get? key = some s.normalize := by
    intro key s hkey hnone hs
    rw [Body.normalize, Shape.get?_normalizeEntries, h.properties key hkey, hnone, hs]
    rfl
  have hownHeaders : ∀ key p, own.headers.get? key = some p →
      ∃ q, r.normalize.headers.get? key = some (q.normalize key) ∧
        (IsPlain p.texts → p.KeptIn q) := by
    intro key p hp
    obtain ⟨q, hq, hkept⟩ := h.ownHeaders key p hp
    exact ⟨q, by rw [Body.normalize, Parameter.get?_normalizeTable, hq]; rfl, hkept⟩
  have hflatHeaders : ∀ key p, Text.endsWith "?" key = false → own.headers.get? key = none →
      flat.headers.get? key = some p →
        ∃ q, r.normalize.headers.get? key = some (q.normalize key) ∧
          (IsPlain (p.under key).texts → (p.under key).KeptIn q) := by
    intro key p hkey hnone hp
    obtain ⟨q, hq, hkept⟩ := h.headers key p hkey hnone hp
    exact ⟨q, by rw [Body.normalize, Parameter.get?_normalizeTable, hq]; rfl, hkept⟩
  exact {
    typed := ⟨r.type, r.items, h.type, h.items, rfl⟩
    schema := h.schema
    description := h.description
    sample := h.sample
    ownProperties := hown
    properties := hflat
    markedProperties := marked_of_met hproperties (fun key s hs => ⟨_, hown key s hs⟩)
      fun key s hkey hnone hs => ⟨_, hflat key s hkey hnone hs⟩
    ownHeaders := hownHeaders
    headers := hflatHeaders
    markedHeaders := marked_of_met hheaders
      (fun key p hp => (hownHeaders key p hp).elim fun _ hq => ⟨_, hq.1⟩)
      fun key p hkey hnone hp => (hflatHeaders key p hkey hnone hp).elim fun _ hq => ⟨_, hq.1⟩
    facets := h.facets
    annotations := h.annotations }

end Body

/-! ## Bodies of a message -/

namespace Bodies

/-- Nothing of a flat body is lost when it is folded into the bodies of the media types. -/
theorem normalize_folds {b : Bodies} {f : Body} (hflat : b.flat = some f)
    (hmedia : b.byMediaType ≠ []) (hf : f.ReadsBack)
    (hmarks : ∀ e ∈ b.byMediaType,
      MarksAreMet e.2.properties f.properties ∧ MarksAreMet e.2.headers f.headers) :
    ∃ b', b.normalize = .ok b' ∧ b'.flat = none ∧
      b.byMediaType.Matches (fun _ own r => own.HasFolded f r) b'.byMediaType := by
  obtain ⟨all, hall, hfolded⟩ := Table.mapValuesM_of_forall
    (f := fun body => Merge.body .empty body f)
    (R := fun own r => own.HasFolded f r.normalize) fun e he => by
      obtain ⟨r, hr, hjoined⟩ := Merge.body_empty e.2 hf
      exact ⟨r, hr, Body.hasFolded_normalize hjoined (hmarks e he).1 (hmarks e he).2⟩
  -- with media types there, the flat body goes into each of them
  have hfold : b.fold = .ok { b with flat := none, byMediaType := all } := by
    obtain ⟨annotations, flat, media⟩ := b
    obtain rfl : flat = some f := hflat
    match media with
    | [] => exact absurd rfl hmedia
    | m :: ms =>
      rw [fold]
      simp only [hall]
      rfl
  refine ⟨{ b with flat := none, byMediaType := all.mapValues Body.normalize }, ?_, rfl, ?_⟩
  · rw [normalize, hfold]
    rfl
  · exact List.forall₂_map_right_iff.mpr hfolded

/-- A body with a property that need not be there. -/
def somebody : Body :=
  { Body.empty with
    description := some "Somebody"
    properties := [("name", .scalar "string"), ("nick?", .scalar "string")] }

/-- The body `somebody` for any media type, and a body for JSON. -/
def of (json : Table Shape) : Bodies :=
  { empty with
    flat := some somebody
    byMediaType := [("application/json", { Body.empty with properties := json })] }

/-- What `somebody` has is in the body for JSON afterwards. -/
theorem somebody_folds : ∃ b', (of [("nick", .scalar "integer")]).normalize = .ok b' ∧
    b'.flat = none ∧ ∃ json, b'.byMediaType = [("application/json", json)] ∧
      json.properties.get? "name" = some (.scalar "string") ∧
      json.properties.get? "nick" = some (.scalar "integer") ∧
      json.description = some "Somebody" := by
  -- the reading of an expression is no structural recursion, so it is opened by its equation
  have hstring : Shape.ofText "string" = .scalar "string" := by
    rw [Shape.ofText, Shape.Expression.ofChars_eq (by decide +kernel)]
    rfl
  have hreads : (Shape.scalar "string").ReadsBack := hstring ▸
    Shape.readsBack_ofText (by decide +kernel) (by decide +kernel) (by decide +kernel)
      (by rw [hstring]; exact fun hunion => absurd hunion (by decide))
  have hsomebody : somebody.ReadsBack :=
    { type := fun s hs => absurd hs (Option.not_mem_none s)
      items := fun s hs => absurd hs (Option.not_mem_none s)
      properties := by
        intro e he
        rcases List.mem_pair.mp he with rfl | rfl <;> exact hreads
      sample := rfl
      headers := List.forall_mem_nil _
      facets := List.forall_mem_nil _
      annotations := List.forall_mem_nil _ }
  obtain ⟨b', hb', hflat, hfolded⟩ := normalize_folds (b := of [("nick", .scalar "integer")]) rfl
    (by decide) hsomebody (List.forall_mem_singleton.mpr ⟨by decide +kernel, by decide +kernel⟩)
  obtain ⟨⟨name, json⟩, rest, ⟨rfl, hjson⟩, hrest, hall⟩ := List.forall₂_cons_left_iff.mp hfolded
  obtain rfl := List.forall₂_nil_left_iff.mp hrest
  refine ⟨b', hb', hflat, json, hall, ?_, ?_, ?_⟩
  · exact hjson.properties "name" (.scalar "string") (by decide +kernel) rfl rfl
  · exact hjson.ownProperties "nick" (.scalar "integer") rfl
  · exact hjson.description.2 rfl (by decide)

/-- A property that need not be there is lost where nothing is known of it. -/
theorem marked_property_lost :
    ¬∀ (b b' : Bodies) (f : Body), b.flat = some f → b.byMediaType ≠ [] →
      b.normalize = .ok b' → ∀ e ∈ b'.byMediaType, ∀ key ∈ f.properties.names,
        e.2.properties.has key = true ∨ e.2.properties.has (Text.dropLast 1 key) = true := by
  intro h
  obtain ⟨b', hrun, hlost⟩ : ∃ b', (of []).normalize = .ok b' ∧
      (b'.byMediaType.all fun e => e.2.properties.has "nick?" || e.2.properties.has "nick") =
        false :=
    toOption_map_eq_some.mp (by decide +kernel)
  simp only [List.all_eq_false, Bool.or_eq_true] at hlost
  obtain ⟨e, he, hnone⟩ := hlost
  exact hnone (h (of []) b' somebody rfl (by decide) hrun e he "nick?" (by decide +kernel))

end Bodies
end Raml
