import Raml.Document.Method
import Raml.Merge.Application

/-!
# The texts of an entity

`texts` lists every text that stands anywhere in an entity: names and other fields, the keys of
its mappings, and whatever its shapes, facets and annotations hold, at any depth. `IsPlain` says
that none of them holds the brackets of a placeholder, so that nothing is left to fill in.

The node that is written for a shape says no more than the shape: a plain shape is written as a
node without brackets, although writing puts texts together (`hasBrackets_toValue`).
-/

namespace Raml

/-! ## Nodes and shapes -/

mutual

/-- The texts in a node, keys included. -/
def Value.texts : Value → List String
  | .str s => [s]
  | .list items => textsOfItems items
  | .pair first second => first.texts ++ second.texts
  | .set items => textsOfItems items
  | .map entries => textsOfEntries entries
  | _ => []

/-- The texts in several nodes. -/
def Value.textsOfItems : List Value → List String
  | [] => []
  | v :: rest => v.texts ++ textsOfItems rest

/-- The texts in the entries of a mapping. -/
def Value.textsOfEntries : List (Value × Value) → List String
  | [] => []
  | (k, v) :: rest => k.texts ++ v.texts ++ textsOfEntries rest

end

/-- The texts in a table, given those in an entry. -/
def Table.texts {α : Type} (f : α → List String) (t : Table α) : List String :=
  t.flatMap fun e => e.1 :: f e.2

/-- What holds of the texts in a table holds of each name, and of the texts in what stands under
it. -/
theorem Table.forall_mem_texts {α : Type} {P : String → Prop} {f : α → List String} {t : Table α}
    (h : ∀ s ∈ t.texts f, P s) {e : String × α} (he : e ∈ t) : P e.1 ∧ ∀ s ∈ f e.2, P s := by
  have htexts : ∀ s ∈ e.1 :: f e.2, P s := fun s hs => h s (List.mem_flatMap.mpr ⟨e, he, hs⟩)
  rwa [List.forall_mem_cons] at htexts

mutual

/-- The texts in a shape. -/
def Shape.texts : Shape → List String
  | .scalar text => [text]
  | .reference name => [name]
  | .array element => element.texts
  | .inline type properties items facets =>
    textsOfOption type ++ textsOfProperties properties ++ textsOfOption items ++
      Table.texts Value.texts facets

/-- The texts in a shape that may be missing. -/
def Shape.textsOfOption : Option Shape → List String
  | none => []
  | some shape => shape.texts

/-- The texts in properties. -/
def Shape.textsOfProperties : List (String × Shape) → List String
  | [] => []
  | (name, shape) :: rest => name :: shape.texts ++ textsOfProperties rest

end

/-! ## Entities -/

/-- The texts in a field that a template may have left open. -/
def Templated.texts {α : Type} : Option (Templated α) → List String
  | some (.text s _) => [s]
  | _ => []

/-- The texts in a parameter. -/
def Parameter.texts (p : Parameter) : List String :=
  Table.texts Value.texts p.annotations ++ [p.name] ++ p.displayName.toList ++
    p.description.toList ++ p.type.toList ++ (p.choices.getD []).flatMap Value.texts ++
    p.pattern.toList ++ Templated.texts p.minLength ++ Templated.texts p.maxLength ++
    Templated.texts p.minimum ++ Templated.texts p.maximum ++ p.format.toList ++
    p.sample.texts ++ p.fallback.texts ++ Templated.texts p.repeats ++
    Templated.texts p.required ++ p.items.texts

/-- The texts in a reference. -/
def Choice.texts (c : Choice) : List String :=
  Table.texts Value.texts c.annotations ++ [c.name] ++ Table.texts Value.texts c.parameters

/-- The texts in a body. -/
def Body.texts (b : Body) : List String :=
  Table.texts Value.texts b.annotations ++ Shape.textsOfOption b.type ++
    Shape.textsOfOption b.items ++ Table.texts Shape.texts b.properties ++ b.schema.toList ++
    b.description.toList ++ b.sample.texts ++ Table.texts Parameter.texts b.headers ++
    Table.texts Value.texts b.facets

/-- The texts in the bodies of a message. -/
def Bodies.texts (b : Bodies) : List String :=
  Table.texts Value.texts b.annotations ++ b.flat.toList.flatMap Body.texts ++
    Table.texts Body.texts b.byMediaType

/-- The texts in a response. -/
def Response.texts (r : Response) : List String :=
  Table.texts Value.texts r.annotations ++ [r.code] ++ r.description.toList ++
    Table.texts Parameter.texts r.headers ++ r.bodies.texts

/-- The texts in a method. -/
def Method.texts (m : Method) : List String :=
  Table.texts Value.texts m.annotations ++ [m.name] ++ m.displayName.toList ++
    m.description.toList ++ Table.texts Parameter.texts m.queryParameters ++
    Table.texts Parameter.texts m.headers ++ Shape.textsOfOption m.queryString ++
    Table.texts Response.texts m.responses ++ m.bodies.texts ++ m.protocols ++
    m.traits.flatMap Choice.texts ++ m.securedBy.flatMap fun c => c.toList.flatMap Choice.texts

/-- The texts in the fields of a resource that a resource type can add to, methods apart. -/
def Resource.ownTexts (r : Resource) : List String :=
  Table.texts Value.texts r.annotations ++ r.displayName.toList ++ r.description.toList ++
    Table.texts Parameter.texts r.uriParameters ++
    r.securedBy.flatMap fun c => c.toList.flatMap Choice.texts

/-! ## Nothing left to fill in -/

/-- Whether no text holds the brackets of a placeholder. -/
def IsPlain (texts : List String) : Prop := ∀ s ∈ texts, Template.hasBrackets s = false

instance (texts : List String) : Decidable (IsPlain texts) :=
  inferInstanceAs (Decidable (∀ s ∈ texts, Template.hasBrackets s = false))

theorem isPlain_append {xs ys : List String} :
    IsPlain (xs ++ ys) ↔ IsPlain xs ∧ IsPlain ys := by
  simp [IsPlain, List.mem_append, or_imp, forall_and]

theorem isPlain_cons {s : String} {xs : List String} :
    IsPlain (s :: xs) ↔ Template.hasBrackets s = false ∧ IsPlain xs := by
  simp [IsPlain]

/-- The entries of a plain table are plain. -/
theorem isPlain_of_mem_table {α : Type} {f : α → List String} {t : Table α}
    (h : IsPlain (t.texts f)) {e : String × α} (he : e ∈ t) : IsPlain (f e.2) :=
  (Table.forall_mem_texts h he).2

/-! ## What is written for a plain shape -/

namespace Template

/-- A pair of equal characters does not come about where a text ends in neither. -/
theorem not_pair_append {c : Char} {xs ys : List Char} (hx : ¬[c, c] <:+: xs)
    (hy : ¬[c, c] <:+: ys) (hhead : ys.head? ≠ some c) : ¬[c, c] <:+: xs ++ ys := by
  induction xs with
  | nil => exact hy
  | cons x xs ih =>
    rw [List.infix_cons_iff, not_or] at hx
    rw [List.cons_append, List.infix_cons_iff]
    rintro (hp | hi)
    · -- the pair begins here, so its second half is next, or first in `ys`
      obtain ⟨hcx, hrest⟩ := List.cons_prefix_cons.mp hp
      cases xs with
      | nil =>
        cases ys with
        | nil => simp at hrest
        | cons y ys => exact hhead (congrArg some (List.cons_prefix_cons.mp hrest).1.symm)
      | cons x' xs =>
        have hcx' : c = x' := (List.cons_prefix_cons.mp hrest).1
        exact hx.1 ⟨xs, by simp [← hcx, ← hcx']⟩
    · exact ih hx.2 hi

/-- An empty text holds no brackets. -/
theorem ne_empty_of_hasBrackets {s : String} (h : hasBrackets s = true) : s ≠ "" := by
  rintro rfl
  exact absurd h (by decide)

/-- A text is without brackets if neither pair stands in it. -/
theorem hasBrackets_eq_false_iff {s : String} :
    hasBrackets s = false ↔ ¬['<', '<'] <:+: s.toList ∧ ¬['>', '>'] <:+: s.toList := by
  rw [hasBrackets, Bool.or_eq_false_iff, ← Bool.not_eq_true, ← Bool.not_eq_true,
    Text.contains_iff, Text.contains_iff]
  rfl

/-- Text after a plain one leaves it plain if it begins with another character. -/
theorem hasBrackets_append {s t : String} (hs : hasBrackets s = false) (ht : hasBrackets t = false)
    (hopen : t.toList.head? ≠ some '<') (hclose : t.toList.head? ≠ some '>') :
    hasBrackets (s ++ t) = false := by
  rw [hasBrackets_eq_false_iff] at hs ht ⊢
  rw [String.toList_append]
  exact ⟨not_pair_append hs.1 ht.1 hopen, not_pair_append hs.2 ht.2 hclose⟩

end Template

namespace Shape

open Template (hasBrackets_append)

/-- The text of a plain shape is plain. -/
theorem hasBrackets_render :
    ∀ s : Shape, IsPlain s.texts → Template.hasBrackets s.render = false
  | .scalar text, h => h text (List.mem_singleton_self _)
  | .reference name, h => h name (List.mem_singleton_self _)
  | .array element, h => by
      have he : Template.hasBrackets element.render = false := hasBrackets_render element h
      rw [render]
      split
      · -- a parenthesis in front begins no pair, so only what follows it counts
        have hclosed : Template.hasBrackets (element.render ++ ")[]") = false :=
          hasBrackets_append he (by decide) (by decide) (by decide)
        rw [Template.hasBrackets_eq_false_iff] at hclosed ⊢
        rw [String.append_assoc, String.toList_append]
        simpa [List.infix_cons_iff] using hclosed
      · exact hasBrackets_append he (by decide) (by decide) (by decide)
  | .inline (some type) _ _ _, h => by
      have ht : IsPlain type.texts := by
        simp only [texts, textsOfOption, isPlain_append] at h
        exact h.1.1.1
      exact hasBrackets_render type ht
  | .inline none properties _ _, _ => by
      rw [render]
      split <;> decide

end Shape

namespace Application

mutual

/-- A value whose texts are plain holds no brackets. -/
theorem hasBrackets_of_isPlain : ∀ v : Value, IsPlain v.texts → hasBrackets v = false
  | .str s, h => h s (List.mem_singleton_self _)
  | .list items, h => anyHasBrackets_of_isPlain items h
  | .map entries, h => entriesHaveBrackets_of_isPlain entries h
  | .null, _ | .bool _, _ | .int _, _ | .float _, _ | .bytes _, _ | .moment _, _ => rfl
  | .pair _ _, _ | .set _, _ => rfl

theorem anyHasBrackets_of_isPlain :
    ∀ items : List Value, IsPlain (Value.textsOfItems items) → anyHasBrackets items = false
  | [], _ => rfl
  | v :: rest, h => by
      rw [Value.textsOfItems, isPlain_append] at h
      rw [anyHasBrackets, hasBrackets_of_isPlain v h.1, anyHasBrackets_of_isPlain rest h.2]
      rfl

theorem entriesHaveBrackets_of_isPlain :
    ∀ entries : List (Value × Value), IsPlain (Value.textsOfEntries entries) →
      entriesHaveBrackets entries = false
  | [], _ => rfl
  | (k, v) :: rest, h => by
      rw [Value.textsOfEntries, isPlain_append, isPlain_append] at h
      rw [entriesHaveBrackets, hasBrackets_of_isPlain k h.1.1, hasBrackets_of_isPlain v h.1.2,
        entriesHaveBrackets_of_isPlain rest h.2]
      rfl

end

theorem entriesHaveBrackets_append {xs ys : List (Value × Value)} :
    entriesHaveBrackets (xs ++ ys) = (entriesHaveBrackets xs || entriesHaveBrackets ys) := by
  induction xs with
  | nil => rfl
  | cons e xs ih =>
    obtain ⟨k, v⟩ := e
    simp only [List.cons_append, entriesHaveBrackets, ih, Bool.or_assoc]

/-- Putting a plain entry in brings no brackets. -/
theorem entriesHaveBrackets_insert {key v : Value} {entries : List (Value × Value)}
    (hkey : hasBrackets key = false) (hv : hasBrackets v = false)
    (h : entriesHaveBrackets entries = false) :
    entriesHaveBrackets (Value.insert key v entries) = false := by
  induction entries with
  | nil => simp [Value.insert, entriesHaveBrackets, hkey, hv]
  | cons e entries ih =>
    obtain ⟨k, w⟩ := e
    simp only [entriesHaveBrackets, Bool.or_eq_false_iff] at h
    rw [Value.insert]
    split
    · simp [entriesHaveBrackets, h, hv]
    · simp [entriesHaveBrackets, h, ih]

/-- Facets are written over what is there, and bring no brackets with them. -/
theorem entriesHaveBrackets_facets {facets : List (String × Value)}
    {entries : List (Value × Value)} (hf : IsPlain (Table.texts Value.texts facets))
    (h : entriesHaveBrackets entries = false) :
    entriesHaveBrackets
      (facets.foldl (fun entries f => Value.insert (.str f.1) f.2 entries) entries) = false := by
  -- the entries grow with each facet, so they are not fixed
  induction facets generalizing entries with
  | nil => exact h
  | cons f facets ih =>
    obtain ⟨name, v⟩ := f
    rw [Table.texts, List.flatMap_cons, isPlain_append, isPlain_cons] at hf
    exact ih hf.2 (entriesHaveBrackets_insert hf.1.1 (hasBrackets_of_isPlain v hf.1.2) h)

end Application

namespace Shape

open Application (hasBrackets entriesHaveBrackets)

mutual

/-- The node of a plain shape holds no brackets. -/
theorem hasBrackets_toValue : ∀ s : Shape, IsPlain s.texts → hasBrackets s.toValue = false
  | .scalar text, h => h text (List.mem_singleton_self _)
  | .reference name, h => h name (List.mem_singleton_self _)
  | .array element, h => by
      -- an array of a declaration is written out, and another one as a text
      rw [toValue]
      split
      · have he : hasBrackets element.toValue = false := hasBrackets_toValue element h
        have htype : Template.hasBrackets "type" = false := by decide
        have harray : Template.hasBrackets "array" = false := by decide
        have hitems : Template.hasBrackets "items" = false := by decide
        simp [hasBrackets, entriesHaveBrackets, he, htype, harray, hitems]
      · exact hasBrackets_render (.array element) h
  | .inline type properties items facets, h => by
      simp only [texts, isPlain_append] at h
      obtain ⟨⟨⟨htype, hprops⟩, hitems⟩, hfacets⟩ := h
      have hstart : entriesHaveBrackets (optionEntry "type" type ++
          (if properties.isEmpty then [] else [(.str "properties", .map (entriesOf properties))]) ++
          optionEntry "items" items) = false := by
        have hname : Template.hasBrackets "properties" = false := by decide
        rw [Application.entriesHaveBrackets_append, Application.entriesHaveBrackets_append,
          hasBrackets_optionEntry (by decide) type htype,
          hasBrackets_optionEntry (by decide) items hitems]
        split
        · rfl
        · simp [hasBrackets, entriesHaveBrackets, hname, hasBrackets_entriesOf properties hprops]
      rw [toValue]
      exact Application.entriesHaveBrackets_facets hfacets hstart

/-- A shape whose texts are plain brings no brackets into an entry. -/
theorem hasBrackets_optionEntry {name : String} (hname : Template.hasBrackets name = false) :
    ∀ s : Option Shape, IsPlain (textsOfOption s) →
      entriesHaveBrackets (optionEntry name s) = false
  | none, _ => rfl
  | some shape, h => by
      simp [optionEntry, entriesHaveBrackets, hasBrackets, hname, hasBrackets_toValue shape h]

theorem hasBrackets_entriesOf :
    ∀ ps : List (String × Shape), IsPlain (textsOfProperties ps) →
      entriesHaveBrackets (entriesOf ps) = false
  | [], _ => rfl
  | (name, shape) :: rest, h => by
      rw [textsOfProperties, List.cons_append, isPlain_cons, isPlain_append] at h
      simp [entriesOf, entriesHaveBrackets, hasBrackets, h.1, hasBrackets_toValue shape h.2.1,
        hasBrackets_entriesOf rest h.2.2]

end

end Shape

end Raml
