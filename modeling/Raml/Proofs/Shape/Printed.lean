import Raml.Proofs.Shape.Names
import Raml.Proofs.Shape.Nodes
import Raml.Proofs.Shape.Rewritten

/-!
# What is left of a normal shape that is written

A shape is read again from what is written for it, but a normal shape may hold what no text is read
as: arrays of declarations. For an array of a declaration the declaration is written out beside the
type `array`. For an array of such an array there is only a text, in which a declaration goes by
its type alone, so all else that it says is lost (`members_lost`).

`written` is what is read again, whatever was normalized (`IsLegible.readAs`), and `hidden` are the
shapes that are written in texts: of the keys and facets exactly theirs are lost
(`sumOf_written_add_hidden`). Names can be said in a text, but a union without matching parentheses
can fall apart in the parentheses that are written around it; `isSpelled` says which shapes keep
what they mention.
-/

namespace Raml.Shape

open Expression

/-! ## What is read again -/

mutual

/-- What is read from the node that is written for a shape. -/
def written : Shape → Shape
  | .scalar text => .scalar text
  | .reference name => .reference name
  | .array element =>
    if element.isInline then .inline (some (.scalar "array")) [] (some element.written) []
    else ofText (render (.array element))
  | .inline type properties items facets =>
    .inline (writtenOption type) (writtenEntries properties) (writtenOption items) facets

/-- What is read for a shape that may be missing. -/
def writtenOption : Option Shape → Option Shape
  | none => none
  | some shape => some shape.written

/-- What is read for properties. -/
def writtenEntries : List (String × Shape) → List (String × Shape)
  | [] => []
  | (name, shape) :: rest => (name, shape.written) :: writtenEntries rest

end

mutual

/-- The shapes that are the elements of arrays written as texts, with all shapes in them. -/
def hidden : Shape → List Shape
  | .scalar _ => []
  | .reference _ => []
  | .array element => if element.isInline then element.hidden else element.nodes
  | .inline type properties items _ =>
    hiddenOfOption type ++ hiddenOfEntries properties ++ hiddenOfOption items

/-- The hidden shapes of a shape that may be missing. -/
def hiddenOfOption : Option Shape → List Shape
  | none => []
  | some shape => shape.hidden

/-- The hidden shapes of properties. -/
def hiddenOfEntries : List (String × Shape) → List Shape
  | [] => []
  | (_, shape) :: rest => shape.hidden ++ hiddenOfEntries rest

end

theorem writtenOption_eq (s : Option Shape) : writtenOption s = s.map written := by
  cases s <;> rfl

theorem writtenEntries_eq (es : List (String × Shape)) :
    writtenEntries es = Table.mapValues written es := by
  induction es with
  | nil => rfl
  | cons e es ih => exact congrArg (_ :: ·) ih

theorem names_writtenEntries (es : List (String × Shape)) :
    Table.names (writtenEntries es) = Table.names es := by
  rw [writtenEntries_eq, Table.mapValues, Table.names, List.map_map]
  rfl

/-! ## Legible shapes -/

/-- A shape that came about by reading clear texts and by putting shapes into arrays and
declarations. -/
inductive IsLegible : Shape → Prop
  | text {s : Shape} {t : String} (hread : ofText t = s)
      (hclear : isSchema t.toList = false → isClear t.toList = true)
      (hfull : Text.allBlank t = false) : IsLegible s
  | array {element : Shape} (helement : IsLegible element) : IsLegible (.array element)
  | inline {type items : Option Shape} {properties : Table Shape} {facets : Table Value}
      (hdistinct : facets.Distinct) (hnames : ∀ n ∈ facets.names, n ∉ fieldNames)
      (hproperties : properties.Distinct) (htype : ∀ s ∈ type, IsLegible s)
      (hitems : ∀ s ∈ items, IsLegible s) (hentries : ∀ e ∈ properties, IsLegible e.2) :
      IsLegible (.inline type properties items facets)

theorem isInherited_isLegible : IsInherited IsLegible :=
  ⟨fun _ hclear hfull => .text rfl hclear hfull, .inline⟩

/-- The text of what is read is read as the same again, also if it is the text of a schema. -/
theorem ofText_render {t : String} (hclear : isSchema t.toList = false → isClear t.toList = true) :
    ofText (ofText t).render = ofText t := by
  cases hschema : isSchema t.toList with
  | true =>
    have hread : ofText t = .scalar t := by
      rw [ofText, ofChars_of_isSchema hschema, String.ofList_toList]
    rw [hread, render, hread]
  | false => exact ofChars_render (hclear hschema)

/-- A clear text is printed as it is read. -/
theorem written_ofText {t : String} (hclear : isSchema t.toList = false → isClear t.toList = true) :
    (ofText t).written = ofText t := by
  have hinline : (ofText t).isInline = false := ofChars_not_isInline t.toList
  have hrender : ofText (ofText t).render = ofText t := ofText_render hclear
  cases hs : ofText t with
  | scalar text => rw [written]
  | reference name => rw [written]
  | array element =>
    rw [hs] at hrender
    rw [written]
    split
    · rename_i helement
      -- an array that is read from a text has no declaration for its element
      have hvalue : (ofText t).toValue = .str (ofText t).render := toValue_ofChars t.toList
      rw [hs, toValue, if_pos helement] at hvalue
      cases hvalue
    · exact hrender
  | inline type properties items facets =>
    rw [hs] at hinline
    cases hinline

theorem readAs_array : (Shape.scalar "array").IsReadAs (.scalar "array") := by
  have hread : ofText "array" = .scalar "array" := by
    rw [ofText, ofChars_eq rfl]
    rfl
  exact hread ▸ rewritten_ofText (fun _ => rfl) rfl

/-- A legible shape is read as `written` says. -/
theorem IsLegible.readAs {s : Shape} (h : s.IsLegible) : s.IsReadAs s.written := by
  induction h with
  | text hread hclear hfull =>
    rw [← hread, written_ofText hclear]
    exact rewritten_ofText hclear hfull
  | @array element _ ih =>
    rw [written]
    split
    · rename_i helement
      -- it is written like a declaration with the type `array`
      have hvalue : (Shape.array element).toValue =
          (Shape.inline (some (.scalar "array")) [] (some element) []).toValue := by
        rw [toValue, if_pos helement]
        rfl
      have htype : ∀ s ∈ some (Shape.scalar "array"), s.IsReadAs s.written := by
        rintro _ ⟨⟩
        exact readAs_array
      have hitems : ∀ s ∈ some element, s.IsReadAs s.written := by
        rintro _ ⟨⟩
        exact ih
      have hproperties : Table.Distinct ([] : Table Shape) := List.nodup_nil
      have hfacets : Table.Distinct ([] : Table Value) := List.nodup_nil
      have hread : (Shape.inline (some (.scalar "array")) [] (some element) []).IsReadAs
          (.inline (some (.scalar "array")) [] (some element.written) []) :=
        readAs_inline hfacets (List.forall_mem_nil _) hproperties htype hitems
          (List.forall_mem_nil _)
      exact ⟨by rw [hvalue]; exact hread.ofValue, by rw [hvalue]; exact hread.ofValue?⟩
    · rename_i helement
      have hvalue : (Shape.array element).toValue = .str (render (.array element)) := by
        rw [toValue, if_neg helement]
      have hfull : Text.allBlank (render (.array element)) = false := by
        rw [← Bool.not_eq_true, allBlank_iff, toList_render_array]
        intro hblank
        have hbracket : Text.isBlank '[' = true := hblank '[' (by split <;> simp)
        exact absurd hbracket (by decide)
      refine isReadAs_of_ofValue ?_ (by simp [hvalue]) fun u hu => ?_
      · rw [hvalue, ofValue_str, hfull, if_neg Bool.false_ne_true]
      · rw [hvalue] at hu
        obtain rfl := Value.str.inj hu
        exact hfull
  | inline hdistinct hnames hproperties _ _ _ htype hitems hentries =>
    rw [written, writtenOption_eq, writtenOption_eq, writtenEntries_eq]
    exact readAs_inline hdistinct hnames hproperties htype hitems hentries

/-! ## Normal shapes are legible -/

/-- A type expression is normal. -/
theorem isNormal_ofChars (cs : List Char) : (ofChars cs).IsNormal := by
  induction cs using ofChars_cases with
  | schema cs _ hread =>
    rw [hread]
    trivial
  | array a cs b _ _ _ _ hread ih => rwa [hread]
  | wrapped a cs b _ _ _ hread ih => rwa [hread]
  | name a cs b _ _ _ hname =>
    rcases eq_of_isName hname with hs | hs <;> rw [hs] <;> trivial

/-- Collapsing leaves legible shapes legible: it moves them, and may leave a declaration without
its type behind. -/
theorem collapse_isLegible {type items : Option Shape} (ht : ∀ s ∈ type, s.IsLegible)
    (hi : ∀ s ∈ items, s.IsLegible) :
    (∀ s ∈ (collapse type items).1, s.IsLegible) ∧ ∀ s ∈ (collapse type items).2, s.IsLegible := by
  match type, items with
  | none, items => exact ⟨ht, hi⟩
  | some t, none => exact ⟨ht, hi⟩
  | some t, some i =>
    have hmoved : ∀ element : Shape, element.IsLegible →
        (∀ s ∈ some (Shape.array element), s.IsLegible) := by
      rintro element helement _ ⟨⟩
      exact .array helement
    unfold collapse
    by_cases harray : t.isBareArray = true
    · simp only [if_pos harray]
      match i with
      | .scalar text => exact ⟨hmoved _ (hi _ rfl), nofun⟩
      | .reference name => exact ⟨hmoved _ (hi _ rfl), nofun⟩
      | .array element => exact ⟨hmoved _ (hi _ rfl), nofun⟩
      | .inline none properties inner facets => exact ⟨ht, hi⟩
      | .inline (some element) properties inner facets =>
        -- the type of the items moves into the array; the rest of them stays, without a type
        cases hi _ rfl with
        | @text _ t hread =>
          have hinline : (ofText t).isInline = false := ofChars_not_isInline t.toList
          rw [hread] at hinline
          cases hinline
        | inline hdistinct hnames hproperties htype hitems hentries =>
          refine ⟨hmoved _ (htype _ rfl), ?_⟩
          dsimp only
          split
          · nofun
          · rintro _ ⟨⟩
            exact .inline hdistinct hnames hproperties nofun hitems hentries
    · simp only [if_neg harray]
      exact ⟨ht, hi⟩

theorem settle_isLegible {type items : Option Shape} {properties : Table Shape}
    {facets : Table Value} (h : (Shape.inline type properties items facets).IsLegible)
    (ht : ∀ s ∈ type, s.IsLegible) : (settle type properties items facets).IsLegible := by
  unfold settle
  split
  · exact ht _ rfl
  · exact h

theorem normalizeOption_eq (s : Option Shape) : normalizeOption s = s.map normalize := by
  cases s <;> rfl

theorem normalizeEntries_eq (es : List (String × Shape)) :
    normalizeEntries es = Table.mapValues normalize es := by
  induction es with
  | nil => rfl
  | cons e es ih => exact congrArg (_ :: ·) ih

/-- Normalizing keeps a shape legible. -/
theorem IsLegible.normalize {s : Shape} (h : s.IsLegible) : s.normalize.IsLegible := by
  induction h with
  | @text s t hread hclear hfull =>
    have hsame : s.normalize = s := normalize_of_isNormal (hread ▸ isNormal_ofChars t.toList)
    rw [hsame]
    exact .text hread hclear hfull
  | array _ ih => exact .array ih
  | @inline type items properties facets hdistinct hnames hproperties _ _ _ htype hitems hentries =>
    have htype' : ∀ s ∈ normalizeOption type, s.IsLegible := by
      simpa [normalizeOption_eq] using htype
    have hitems' : ∀ s ∈ normalizeOption items, s.IsLegible := by
      simpa [normalizeOption_eq] using hitems
    have hparts := collapse_isLegible htype' hitems'
    refine settle_isLegible (.inline hdistinct hnames ?_ hparts.1 hparts.2 ?_) hparts.1
    · rw [Table.Distinct, names_normalizeEntries]
      exact hproperties
    · intro e he
      rw [normalizeEntries_eq] at he
      obtain ⟨s, hs, hsame⟩ := Table.of_mem_mapValues he
      exact hsame ▸ hentries _ hs

/-! ## What is lost -/

section Sums

variable {β : Type} {f : Shape → Multiset β}

/-- What is read from a text says nothing that only declarations say. -/
theorem sumOf_ofText (hf : IsOwn f) (htext : ∀ text, f (.scalar text) = 0)
    (hname : ∀ name, f (.reference name) = 0) (t : String) : sumOf f (ofText t).nodes = 0 := by
  have hone : ∀ s, f s = 0 → sumOf f [s] = 0 := by
    intro s hs
    rw [sumOf_cons, hs]
    rfl
  rw [ofText]
  induction t.toList using ofChars_cases with
  | schema cs _ hread => rw [hread, nodes, hone _ (htext _)]
  | array a cs b _ _ _ _ hread ih => rw [hread, sumOf_array, hf.array, htext, ih, zero_add]
  | wrapped a cs b _ _ _ hread ih => rw [hread, ih]
  | name a cs b _ _ _ hname' =>
    rcases eq_of_isName hname' with hs | hs
    · rw [hs, nodes, hone _ (htext _)]
    · rw [hs, nodes, hone _ (hname _)]

mutual

/-- **Of what only declarations say, what is lost is what the hidden shapes say**, and no more. -/
theorem sumOf_written_add_hidden (hf : IsOwn f) (htext : ∀ text, f (.scalar text) = 0)
    (hname : ∀ name, f (.reference name) = 0) :
    ∀ s : Shape, sumOf f s.written.nodes + sumOf f s.hidden = sumOf f s.nodes
  | .scalar _ => add_zero _
  | .reference _ => add_zero _
  | .array element => by
      rw [written, hidden, sumOf_array, hf.array, htext, zero_add]
      split
      · rw [sumOf_inline, hf.wrapper, ← sumOf_written_add_hidden hf htext hname element]
        simp [nodesOfOption, nodesOfEntries, nodes, sumOf, htext]
      · rw [sumOf_ofText hf htext hname, zero_add]
  | .inline type properties items facets => by
      have hown := hf.inline (writtenOption type) type (writtenEntries properties) properties
        (writtenOption items) items facets (names_writtenEntries properties)
      rw [written, hidden, sumOf_inline, sumOf_inline, hown, sumOf_append, sumOf_append,
        ← sumOf_writtenOption hf htext hname type, ← sumOf_writtenOption hf htext hname items,
        ← sumOf_writtenEntries hf htext hname properties]
      ac_rfl

/-- What is printed of a shape that may be missing and what is hidden make up the whole. -/
theorem sumOf_writtenOption (hf : IsOwn f) (htext : ∀ text, f (.scalar text) = 0)
    (hname : ∀ name, f (.reference name) = 0) : ∀ s : Option Shape,
    sumOf f (nodesOfOption (writtenOption s)) + sumOf f (hiddenOfOption s) =
      sumOf f (nodesOfOption s)
  | none => rfl
  | some shape => sumOf_written_add_hidden hf htext hname shape

theorem sumOf_writtenEntries (hf : IsOwn f) (htext : ∀ text, f (.scalar text) = 0)
    (hname : ∀ name, f (.reference name) = 0) : ∀ es : List (String × Shape),
    sumOf f (nodesOfEntries (writtenEntries es)) + sumOf f (hiddenOfEntries es) =
      sumOf f (nodesOfEntries es)
  | [] => rfl
  | (_, shape) :: rest => by
      rw [writtenEntries, nodesOfEntries, nodesOfEntries, hiddenOfEntries, sumOf_append,
        sumOf_append, sumOf_append, ← sumOf_written_add_hidden hf htext hname shape,
        ← sumOf_writtenEntries hf htext hname rest]
      ac_rfl

end

end Sums

/-! ## What a text can say -/

/-- Whether the text of an array of a shape says all that the shape mentions: a union has to stay
open to the parentheses that are written around it, and a declaration has to say nothing but its
type. -/
def isSpelled : Shape → Bool
  | .scalar _ => true
  | .reference name => !hasUnion name.toList || staysOpen 1 name.toList
  | .array element => element.isSpelled
  | .inline none properties items facets =>
    properties.isEmpty && items.isNone && facets.isEmpty
  | .inline (some type) properties items facets =>
    properties.isEmpty && items.isNone && facets.isEmpty && !type.isUnion && type.isSpelled

/-- Whether a node, if it is an array that is written as a text, says all that its elements
mention. -/
def spellsElements : Shape → Bool
  | .array element => element.isInline || element.isSpelled
  | _ => true

/-- Whether every array in a shape that is written as a text says all that its elements mention. -/
def IsSpelledOut (s : Shape) : Prop := ∀ n ∈ s.nodes, n.spellsElements = true

instance (s : Shape) : Decidable s.IsSpelledOut :=
  inferInstanceAs (Decidable (∀ n ∈ s.nodes, n.spellsElements = true))

/-- The name of a built-in type other than `array`. -/
def ownBuiltin : Shape → Multiset String
  | .scalar text => if text = "array" ∨ isSchema text.toList = true then 0 else {text}
  | _ => 0

theorem isOwn_builtin : IsOwn ownBuiltin :=
  ⟨fun _ _ _ _ _ _ _ _ => rfl, fun _ => rfl, rfl⟩

section Spelled

variable {β : Type} {f : Shape → Multiset β}

/-- Parentheses that stay open make an array of a union. -/
theorem ofText_array_of_isUnion {element : Shape} (hunion : element.isUnion = true)
    (hspelled : element.isSpelled = true) :
    ofText (render (.array element)) = .array (ofText element.render) ∧
      hasUnion (render (.array element)).toList = false := by
  cases element with
  | reference name =>
    have hopen : staysOpen 1 (Shape.reference name).render.toList = true := by
      rw [isUnion] at hunion
      rwa [isSpelled, hunion, Bool.not_true, Bool.false_or] at hspelled
    rw [ofText, ofText, toList_render_array, if_pos hunion, hasUnion_suffix]
    refine ⟨?_, hasUnion_wrapped hopen⟩
    rw [ofChars_array rfl (hasUnion_wrapped hopen), ofChars_wrapped hopen]
  | _ => cases hunion

/-- An array of something that is no union is read as one. -/
theorem ofText_array_of_not_isUnion {element : Shape} (hunion : element.isUnion = false)
    (hschema : isSchema element.render.toList = false)
    (hnone : hasUnion element.render.toList = false) :
    ofText (render (.array element)) = .array (ofText element.render) ∧
      hasUnion (render (.array element)).toList = false := by
  rw [ofText, ofText, toList_render_array, if_neg (by simp [hunion]), hasUnion_suffix]
  exact ⟨ofChars_array hschema hnone, hnone⟩

/-- The text of an array of a schema is that of a schema. -/
theorem ofText_array_of_isSchema {element : Shape} (hunion : element.isUnion = false)
    (hschema : isSchema element.render.toList = true) :
    isSchema (render (.array element)).toList = true := by
  rw [toList_render_array, if_neg (by simp [hunion])]
  by_contra hother
  rw [isSchema_left (eq_false_of_ne_true hother)] at hschema
  cases hschema

/-- Whether the text of a shape says what the shape mentions, and is the text of a union only if the
shape is one. -/
def IsTold (f : Shape → Multiset β) (s : Shape) : Prop :=
  sumOf f s.nodes ≤ sumOf f (ofText s.render).nodes ∧
    (isSchema s.render.toList = false → s.isUnion = false → hasUnion s.render.toList = false)

/-- A clear text tells all that it stands for. -/
theorem isTold_ofText {t : String} (hclear : isSchema t.toList = false → isClear t.toList = true) :
    IsTold f (ofText t) := by
  rw [IsTold, ofText_render hclear]
  refine ⟨le_refl _, fun hrender hunion => ?_⟩
  have hschema : isSchema t.toList = false := by
    by_contra htext
    rw [Bool.not_eq_false] at htext
    rw [ofText, ofChars_of_isSchema htext, render, String.ofList_toList, htext] at hrender
    cases hrender
  exact hasUnion_render (hclear hschema) hschema hunion

section Told

variable (hf : IsOwn f)
include hf

theorem isTold_inline_none : IsTold f (.inline none [] none []) := by
  have hnothing : sumOf f (Shape.inline none [] none []).nodes = 0 := by
    rw [sumOf_inline, hf.wrapper]
    rfl
  rw [IsTold, hnothing]
  exact ⟨Multiset.zero_le _, fun _ _ => by decide⟩

/-- A declaration that says nothing but its type goes by it. -/
theorem IsTold.inline_some {type : Shape} (h : IsTold f type) (hunion : type.isUnion = false) :
    IsTold f (.inline (some type) [] none []) := by
  have hsame : sumOf f (Shape.inline (some type) [] none []).nodes = sumOf f type.nodes := by
    rw [sumOf_inline, hf.wrapper, zero_add]
    exact (add_zero _).trans (add_zero _)
  rw [IsTold, hsame, render]
  exact ⟨h.1, fun htext _ => h.2 htext hunion⟩

variable (harray : f (.scalar "array") = 0)
  (hschema : ∀ text : String, isSchema text.toList = true → f (.scalar text) = 0)
include harray hschema

/-- An array of something that is spelled out tells all. -/
theorem IsTold.array {element : Shape} (h : IsTold f element)
    (hspelled : element.isSpelled = true) : IsTold f (.array element) := by
  obtain ⟨hle, hnone⟩ := h
  -- an array of what is read is read, unless the text is that of a schema
  have hgrow : ofText (render (.array element)) = .array (ofText element.render) →
      sumOf f (Shape.array element).nodes ≤ sumOf f (ofText (render (.array element))).nodes := by
    intro hread
    rw [hread, sumOf_array, sumOf_array, hf.array, hf.array]
    exact add_le_add_right hle _
  have hscalar : ∀ text : String, isSchema text.toList = true →
      sumOf f (ofText text).nodes = 0 := by
    intro text htext
    rw [ofText, ofChars_of_isSchema htext, nodes, sumOf_cons, String.ofList_toList, hschema _ htext]
    rfl
  cases hunion : element.isUnion with
  | true =>
    obtain ⟨hread, hplain⟩ := ofText_array_of_isUnion hunion hspelled
    exact ⟨hgrow hread, fun _ _ => hplain⟩
  | false =>
    cases htext : isSchema element.render.toList with
    | true =>
      have harrayText := ofText_array_of_isSchema hunion htext
      refine ⟨?_, fun hother => ?_⟩
      · rw [hscalar _ htext] at hle
        rw [hscalar _ harrayText, sumOf_array, hf.array, harray, zero_add]
        exact hle
      · rw [harrayText] at hother
        cases hother
    | false =>
      obtain ⟨hread, hplain⟩ := ofText_array_of_not_isUnion hunion htext (hnone htext hunion)
      exact ⟨hgrow hread, fun _ _ => hplain⟩

/-- A legible shape that is spelled out tells all. -/
theorem IsLegible.isTold {s : Shape} (h : s.IsLegible) (hspelled : s.isSpelled = true) :
    IsTold f s := by
  induction h with
  | @text s t hread hclear _ =>
    rw [← hread]
    exact isTold_ofText hclear
  | array _ ih => exact (ih hspelled).array hf harray hschema hspelled
  | @inline type items properties facets _ _ _ _ _ _ ih _ _ =>
    cases type with
    | none =>
      simp only [isSpelled, Bool.and_eq_true, List.isEmpty_iff, Option.isNone_iff_eq_none]
        at hspelled
      obtain ⟨⟨rfl, rfl⟩, rfl⟩ := hspelled
      exact isTold_inline_none hf
    | some type =>
      simp only [isSpelled, Bool.and_eq_true, List.isEmpty_iff, Option.isNone_iff_eq_none,
        Bool.not_eq_true'] at hspelled
      obtain ⟨⟨⟨⟨rfl, rfl⟩, rfl⟩, hunion⟩, htype⟩ := hspelled
      exact (ih type rfl htype).inline_some hf hunion

end Told

theorem mem_nodesOfEntries {es : List (String × Shape)} {e : String × Shape} (he : e ∈ es) :
    ∀ n ∈ e.2.nodes, n ∈ nodesOfEntries es := by
  intro n hn
  induction es with
  | nil => cases he
  | cons e' es ih =>
    rw [nodesOfEntries, List.mem_append]
    rcases List.mem_cons.mp he with rfl | he
    · exact .inl hn
    · exact .inr (ih he)

theorem IsSpelledOut.part {s part : Shape} (h : s.IsSpelledOut)
    (hpart : ∀ n ∈ part.nodes, n ∈ s.nodes) : part.IsSpelledOut :=
  fun n hn => h n (hpart n hn)

theorem sumOf_writtenEntries_le {es : List (String × Shape)}
    (h : ∀ e ∈ es, sumOf f e.2.nodes ≤ sumOf f e.2.written.nodes) :
    sumOf f (nodesOfEntries es) ≤ sumOf f (nodesOfEntries (writtenEntries es)) := by
  induction es with
  | nil => exact le_refl _
  | cons e es ih =>
    rw [List.forall_mem_cons] at h
    rw [nodesOfEntries, writtenEntries, nodesOfEntries, sumOf_append, sumOf_append]
    exact add_le_add h.1 (ih h.2)

theorem sumOf_writtenOption_le {o : Option Shape}
    (h : ∀ s ∈ o, sumOf f s.nodes ≤ sumOf f s.written.nodes) :
    sumOf f (nodesOfOption o) ≤ sumOf f (nodesOfOption (writtenOption o)) := by
  cases o with
  | none => exact le_refl _
  | some s => exact h s rfl

/-- **What a legible shape mentions is still there when it is read again**, if its arrays are
spelled out. -/
theorem IsLegible.sumOf_written (hf : IsOwn f) (harray : f (.scalar "array") = 0)
    (hschema : ∀ text : String, isSchema text.toList = true → f (.scalar text) = 0) {s : Shape}
    (h : s.IsLegible) (hspelled : s.IsSpelledOut) :
    sumOf f s.nodes ≤ sumOf f s.written.nodes := by
  induction h with
  | @text s t hread hclear _ => rw [← hread, written_ofText hclear]
  | @array element helement ih =>
    cases hinline : element.isInline with
    | true =>
      -- the declaration is written out beside the type `array`, so it keeps what it says itself
      have hle := ih (hspelled.part fun n hn => List.mem_cons_of_mem _ hn)
      rw [written, if_pos hinline, sumOf_array, sumOf_inline, hf.array, hf.wrapper, harray]
      simpa [nodesOfOption, nodesOfEntries, nodes, sumOf, harray] using hle
    | false =>
      have htext : (Shape.array element).isSpelled = true :=
        (Bool.or_eq_true_iff.mp (hspelled _ (List.mem_cons_self ..))).resolve_left
          (by simp [hinline])
      rw [written, if_neg (by simp [hinline])]
      exact ((IsLegible.array helement).isTold hf harray hschema htext).1
  | @inline type items properties facets _ _ _ _ _ _ htype hitems hentries =>
    have hown := hf.inline (writtenOption type) type (writtenEntries properties) properties
      (writtenOption items) items facets (names_writtenEntries properties)
    have hparts : ∀ n, (n ∈ nodesOfOption type ∨ n ∈ nodesOfEntries properties) ∨
        n ∈ nodesOfOption items → n ∈ (Shape.inline type properties items facets).nodes := by
      intro n hn
      rw [nodes, List.mem_cons, List.mem_append, List.mem_append]
      exact .inr hn
    have htypeLe : sumOf f (nodesOfOption type) ≤
        sumOf f (nodesOfOption (writtenOption type)) := by
      refine sumOf_writtenOption_le fun s hs => htype s hs (hspelled.part fun n hn => ?_)
      exact hparts n (.inl (.inl (by rw [hs]; exact hn)))
    have hitemsLe : sumOf f (nodesOfOption items) ≤
        sumOf f (nodesOfOption (writtenOption items)) := by
      refine sumOf_writtenOption_le fun s hs => hitems s hs (hspelled.part fun n hn => ?_)
      exact hparts n (.inr (by rw [hs]; exact hn))
    have hentriesLe : sumOf f (nodesOfEntries properties) ≤
        sumOf f (nodesOfEntries (writtenEntries properties)) := by
      refine sumOf_writtenEntries_le fun e he => hentries e he (hspelled.part fun n hn => ?_)
      exact hparts n (.inl (.inr (mem_nodesOfEntries he n hn)))
    rw [written, sumOf_inline, sumOf_inline, hown]
    exact add_le_add_right (add_le_add (add_le_add htypeLe hentriesLe) hitemsLe) _

end Spelled

/-! ## Main result -/

/-- **What is written for a shape that was read and normalized.** It is read again, as `written`
says. Of the keys and the facets, those of the hidden shapes are lost and all others are kept. If
every array that is written as a text says what its elements mention, then nothing is lost: each
name of a reference, each built-in type, each key and each facet is read again as often as it
occurs. -/
theorem read_normalized {v : Value} {s : Shape} (hclear : AllClear (expressions v))
    (hs : ofValue v = .ok s) :
    ofValue s.normalize.toValue = .ok s.normalize.written ∧
    sumOf ownKeys s.normalize.written.nodes + sumOf ownKeys s.normalize.hidden =
      sumOf ownKeys s.normalize.nodes ∧
    sumOf ownFacets s.normalize.written.nodes + sumOf ownFacets s.normalize.hidden =
      sumOf ownFacets s.normalize.nodes ∧
    (s.normalize.IsSpelledOut →
      sumOf ownName s.normalize.nodes ≤ sumOf ownName s.normalize.written.nodes ∧
      sumOf ownBuiltin s.normalize.nodes ≤ sumOf ownBuiltin s.normalize.written.nodes ∧
      sumOf ownKeys s.normalize.written.nodes = sumOf ownKeys s.normalize.nodes ∧
      sumOf ownFacets s.normalize.written.nodes = sumOf ownFacets s.normalize.nodes) := by
  -- reading takes the shape apart that was printed, and no more than the hidden part is lost
  have hlegible : s.normalize.IsLegible := (of_ofValue isInherited_isLegible hclear hs).normalize
  have hkeys := sumOf_written_add_hidden isOwn_keys (fun _ => rfl) (fun _ => rfl) s.normalize
  have hfacets := sumOf_written_add_hidden isOwn_facets (fun _ => rfl) (fun _ => rfl) s.normalize
  refine ⟨hlegible.readAs.ofValue, hkeys, hfacets, fun hspelled => ⟨?_, ?_, ?_, ?_⟩⟩
  · exact hlegible.sumOf_written isOwn_name rfl (fun _ _ => rfl) hspelled
  · exact hlegible.sumOf_written isOwn_builtin rfl (fun _ h => if_pos (.inr h)) hspelled
  · exact le_antisymm (hkeys ▸ Multiset.le_add_right _ _)
      (hlegible.sumOf_written isOwn_keys rfl (fun _ _ => rfl) hspelled)
  · exact le_antisymm (hfacets ▸ Multiset.le_add_right _ _)
      (hlegible.sumOf_written isOwn_facets rfl (fun _ _ => rfl) hspelled)

/-- A list of books: their tags are one of two things each, and the pages are listed in rows. -/
def books : Value :=
  .map [(.str "type", .str "array"), (.str "items", .map [(.str "type", .map [
    (.str "description", .str "A book"), (.str "properties", .map [(.str "tags", .str "(A | B)[]"),
      (.str "pages?", .map [(.str "type", .str "array"), (.str "items", .str "Page[]")])])])])]

/-- The type `books` is read again with all its keys and names, as everything in it is spelled out.
-/
theorem books_read_normalized : AllClear (expressions books) ∧
    ∃ s, ofValue books = .ok s ∧ s.isInline = true ∧ s.normalize.isArray = true ∧
      s.normalize.IsSpelledOut ∧ ∃ r, ofValue s.normalize.toValue = .ok r ∧
        {"tags", "pages?"} ≤ sumOf ownKeys r.nodes ∧ {"A | B", "Page"} ≤ sumOf ownName r.nodes := by
  have hclear : AllClear (expressions books) := by decide +kernel
  obtain ⟨s, hs, hshown⟩ : ∃ s, ofValue books = .ok s ∧ (s.isInline, s.normalize.isArray,
      decide s.normalize.IsSpelledOut,
      decide ({"tags", "pages?"} ≤ sumOf ownKeys s.normalize.nodes),
      decide ({"A | B", "Page"} ≤ sumOf ownName s.normalize.nodes)) =
        (true, true, true, true, true) :=
    toOption_map_eq_some.mp (by decide +kernel)
  simp only [Prod.mk.injEq, decide_eq_true_eq] at hshown
  obtain ⟨hinline, harray, hspelled, hkeys, hnames⟩ := hshown
  obtain ⟨hread, -, -, hkept⟩ := read_normalized hclear hs
  obtain ⟨hnames', -, hkeys', -⟩ := hkept hspelled
  exact ⟨hclear, s, hs, hinline, harray, hspelled, _, hread, hkeys' ▸ hkeys,
    hnames.trans hnames'⟩

/-- A list of lists of declarations. -/
def rows : Value :=
  .map [(.str "type", .str "array"), (.str "items", .map [(.str "type", .str "array"),
    (.str "items", .map [(.str "type", .map [(.str "properties", .map [
      (.str "id", .str "integer")])])])])]

/-- The members of a declaration are lost if it is the element of an array that is the element of an
array: it is written as a text, `object[][]`. -/
theorem members_lost : AllClear (expressions rows) ∧
    ∃ s, ofValue rows = .ok s ∧ "id" ∈ sumOf ownKeys s.normalize.nodes ∧
      ∃ r, ofValue s.normalize.toValue = .ok r ∧ "id" ∉ sumOf ownKeys r.nodes := by
  have hclear : AllClear (expressions rows) := by decide +kernel
  obtain ⟨s, hs, hshown⟩ : ∃ s, ofValue rows = .ok s ∧
      (decide ("id" ∈ sumOf ownKeys s.normalize.nodes),
        (ofValue s.normalize.toValue).toOption.map fun r =>
          decide ("id" ∈ sumOf ownKeys r.nodes)) = (true, some false) :=
    toOption_map_eq_some.mp (by decide +kernel)
  obtain ⟨hkey, hshown⟩ := Prod.mk.inj hshown
  obtain ⟨r, hr, hlost⟩ := toOption_map_eq_some.mp hshown
  exact ⟨hclear, s, hs, of_decide_eq_true hkey, r, hr, of_decide_eq_false hlost⟩

end Raml.Shape
