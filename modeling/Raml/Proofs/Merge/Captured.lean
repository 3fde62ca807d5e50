import Raml.Proofs.Merge.Alike
import Raml.Proofs.Shape.Renamed

/-!
# Names that a library captures

A template is filled in before its types are qualified, so a name that came in through a value is
qualified like one that the template has itself: the library captures it, if it declares a type of
that name. `Reads` says what comes of the names in a type when a template brings it in.

Two libraries that declare the same types, except perhaps one, make the same of each type that does
not mention its name. So a place for a type holds what the method itself had said there, or what one
template brought in under either library (`captures`). That holds of all that one merge makes of a
type (`captures_fits`), so methods that templates of such libraries are merged into are alike.
-/

namespace Raml

open Application (hasBrackets typeText)
open Shape (opensSchema)

/-! ## How a template reads a type -/

namespace Application

/-- How a template reads a name: a type that its library declares is named under the alias. -/
def nameOf (app : Application) (n : String) : String :=
  match app.aliasName? with
  | none => n
  | some A => if n ∈ app.types then A ++ "." ++ n else n

/-- Whether the alias of the library and the types that it declares are plain names. -/
def IsWorded (app : Application) : Prop := ∀ A ∈ app.aliasName?, Shape.Scope.IsWorded ⟨A, app.types⟩

/-- Whether a shape is what a template makes of another one in which no placeholder is left to fill
in. A name that stands alone is read as it is; among other names it has to be told from them. -/
structure Reads (app : Application) (x s : Shape) : Prop where
  qualified : s = app.qualify x
  alone : ∀ n, x = .reference n → Shape.Expression.hasUnion n.toList = false →
    s = .reference (app.nameOf n)
  among : app.IsWorded → (∀ t ∈ x.references, ¬opensSchema t.toList) →
    s.mentions = x.mentions.map app.nameOf

/-- Whether a text is what a template makes of that of a type: nothing and a schema are kept, and
what is read as another type is written for it. -/
inductive ReadsText (app : Application) : String → String → Prop where
  | kept {t : String} : t = "" ∨ Shape.isSchema t.toList = true → ReadsText app t t
  | written {t : String} {s : Shape} : ¬(t = "" ∨ Shape.isSchema t.toList = true) →
      app.Reads (Shape.ofText t) s → ReadsText app t s.render

variable {app : Application}

/-- A template reads a name as its library declares it, under the alias. -/
theorem nameOf_eq_rename {A : String} (halias : app.aliasName? = some A) :
    app.nameOf = Shape.Scope.rename ⟨A, app.types⟩ := by
  funext n
  rw [nameOf, halias, Shape.Scope.rename]
  simp only [List.contains_iff_mem]

/-- What a template makes of a shape is what it reads the shape as. -/
theorem reads_qualify (app : Application) (x : Shape) : app.Reads x (app.qualify x) := by
  refine ⟨rfl, fun n hx hunion => ?_, fun hworded hplain => ?_⟩
  · rw [hx, qualify]
    cases halias : app.aliasName? with
    | none => rw [nameOf, halias]
    | some A =>
      rw [nameOf_eq_rename halias]
      simp only [Shape.qualify, Shape.Scope.reference, hunion, Bool.false_eq_true, if_false]
  · rw [qualify]
    cases halias : app.aliasName? with
    | none =>
      have hsame : app.nameOf = id := by
        funext n
        rw [nameOf, halias]
        rfl
      rw [hsame, List.map_id]
    | some A =>
      rw [nameOf_eq_rename halias]
      exact Shape.mentions_qualify (hworded A halias) hplain

/-- What a template makes of the name of a type is what it reads the name as. -/
theorem readsText_typeText (app : Application) (t : String) : app.ReadsText t (app.typeText t) := by
  have hiff : (t.isEmpty || Shape.isSchema t.toList) = true ↔
      t = "" ∨ Shape.isSchema t.toList = true := by
    rw [Bool.or_eq_true, String.isEmpty_iff]
  rw [typeText]
  split
  · rename_i hkept
    exact .kept (hiff.mp hkept)
  · rename_i hread
    exact .written (fun h => hread (hiff.mpr h)) (reads_qualify app _)

/-- A template reads the name of a type in one way only. -/
theorem ReadsText.eq_typeText {t u : String} (h : app.ReadsText t u) : u = app.typeText t := by
  have hiff : (t.isEmpty || Shape.isSchema t.toList) = true ↔
      t = "" ∨ Shape.isSchema t.toList = true := by
    rw [Bool.or_eq_true, String.isEmpty_iff]
  cases h with
  | kept h => rw [typeText, if_pos (hiff.mpr h)]
  | written h hs => rw [typeText, if_neg (fun hkept => h (hiff.mp hkept)), hs.qualified]

end Application

/-! ## Two libraries that differ in one type -/

/-- Whether two libraries have the same alias, without brackets of placeholders, and declare the
same types, except perhaps one of the given name. -/
structure Application.DiffersAt (N : String) (app app' : Application) : Prop where
  declared : ∀ n, n ≠ N → (n ∈ app'.types ↔ n ∈ app.types)
  aliasName : app'.aliasName = app.aliasName
  brackets : ∀ a ∈ app.aliasName?, Template.hasBrackets a = false

section Differs

variable {N : String} {app app' : Application}

theorem Application.DiffersAt.aliasName? (h : app.DiffersAt N app') :
    app'.aliasName? = app.aliasName? := by
  rw [Application.aliasName?, Application.aliasName?, h.aliasName]

theorem Application.DiffersAt.brackets' (h : app.DiffersAt N app') :
    ∀ a ∈ app'.aliasName?, Template.hasBrackets a = false := h.aliasName? ▸ h.brackets

/-- Two templates that differ in one name read every other name alike. -/
theorem rename_of_differsAt (h : app.DiffersAt N app') {n : String} (hn : n ≠ N) (A : String) :
    Shape.Scope.rename ⟨A, app.types⟩ n = Shape.Scope.rename ⟨A, app'.types⟩ n := by
  have hsame : app.types.contains n = app'.types.contains n := by
    rw [Bool.eq_iff_iff, List.contains_iff_mem, List.contains_iff_mem, h.declared n hn]
  rw [Shape.Scope.rename, Shape.Scope.rename, hsame]

/-- A shape that does not mention the name is the same under both libraries. -/
theorem qualify_of_differsAt (h : app.DiffersAt N app') {s : Shape} (hs : N ∉ s.mentions) :
    app.qualify s = app'.qualify s := by
  rw [Application.qualify, Application.qualify, h.aliasName?]
  cases app.aliasName? with
  | none => rfl
  | some A =>
    refine Shape.qualify_congr fun n hn => rename_of_differsAt h ?_ A
    rintro rfl
    exact hs hn

/-- So they read every text alike that does not mention the name. -/
theorem typeText_of_differsAt (h : app.DiffersAt N app') {t : String}
    (ht : N ∉ (Shape.ofText t).mentions) : app.typeText t = app'.typeText t := by
  rw [typeText, typeText, qualify_of_differsAt h ht]

/-- Whether anything is left of the text of a type does not depend on the library. -/
theorem typeText_eq_empty (h : app.DiffersAt N app') (hN : N ≠ "") (t : String) :
    app.typeText t = "" ↔ app'.typeText t = "" := by
  rw [typeText, typeText]
  split
  · rfl
  · rw [Application.qualify, Application.qualify, h.aliasName?]
    cases app.aliasName? with
    | none => rfl
    | some A =>
      refine Shape.render_qualify_eq_empty ?_ _
      rw [rename_of_differsAt h hN.symm A]

end Differs

/-! ## Places for types -/

variable {N : String} {One : Application → Application → Prop}

/-- What a place for a shape holds in two methods that the same templates were merged into, each
template applied in both (`One`): what the methods say there of their own, or what one template has
brought in, as it reads it in either. Only a shape that mentions the name is read differently. -/
inductive ShapeCaptured (N : String) (One : Application → Application → Prop)
    (own : Option Shape) : Shape → Shape → Prop where
  | own {s : Shape} : own = some s → ShapeCaptured N One own s s
  | template {app app' : Application} {x s s' : Shape} : One app app' → app.Reads x s →
      app'.Reads x s' → (N ∉ x.mentions → s = s') → ShapeCaptured N One own s s'

/-- The same of a place for the text of a type. As long as placeholders are left in the text,
further templates may read it again. -/
inductive TextCaptured (N : String) (One : Application → Application → Prop)
    (own : Option String) : String → String → Prop where
  | own {t : String} : own = some t → TextCaptured N One own t t
  | template {app app' : Application} {t u u' : String} : One app app' → app.ReadsText t u →
      app'.ReadsText t u' → (N ∉ (Shape.ofText t).mentions → u = u') → TextCaptured N One own u u'
  | again {app app' : Application} {t t' u u' : String} : TextCaptured N One own t t' →
      Template.hasBrackets t = true → One app app' → app.ReadsText t u → app'.ReadsText t' u' →
      (t = t' → N ∉ (Shape.ofText t).mentions → u = u') → TextCaptured N One own u u'

/-- How two methods differ that templates were merged into whose libraries may capture the name. -/
def captures (N : String) (One : Application → Application → Prop) : Likeness where
  shape := ShapeCaptured N One
  text := TextCaptured N One

/-- What the document says itself is captured by no template. -/
theorem captures_keepsOwn : (captures N One).KeepsOwn := ⟨fun _ => .own rfl, fun _ => .own rfl⟩

section Fits

variable (hOne : ∀ {app app' : Application}, One app app' → app.DiffersAt N app')
include hOne

/-- Capturing a shape brings no brackets into it and takes none out. -/
theorem ShapeCaptured.hasBrackets {own : Option Shape} {s s' : Shape}
    (h : ShapeCaptured N One own s s') :
    Application.hasBrackets s.toValue = Application.hasBrackets s'.toValue := by
  cases h with
  | own _ => rfl
  | template hone hs hs' _ =>
    have hdiffers := hOne hone
    rw [hs.qualified, hs'.qualified, Application.hasBrackets_qualify hdiffers.brackets,
      Application.hasBrackets_qualify hdiffers.brackets']

theorem TextCaptured.hasBrackets {own : Option String} {t t' : String}
    (h : TextCaptured N One own t t') : Template.hasBrackets t = Template.hasBrackets t' := by
  induction h with
  | own _ => rfl
  | template hone hu hu' _ =>
    rw [hu.eq_typeText, hu'.eq_typeText, Application.hasBrackets_typeText (hOne hone).brackets,
      Application.hasBrackets_typeText (hOne hone).brackets']
  | again _ _ hone hu hu' _ ih =>
    rw [hu.eq_typeText, hu'.eq_typeText, Application.hasBrackets_typeText (hOne hone).brackets,
      Application.hasBrackets_typeText (hOne hone).brackets', ih]

/-- A captured text is empty if the text was. -/
theorem TextCaptured.eq_empty (hN : N ≠ "") {own : Option String} {t t' : String}
    (h : TextCaptured N One own t t') : t = "" ↔ t' = "" := by
  cases h with
  | own _ => rfl
  | template hone hu hu' _ =>
    rw [hu.eq_typeText, hu'.eq_typeText]
    exact typeText_eq_empty (hOne hone) hN _
  | again ht hopen hone hu hu' _ =>
    -- a text in which a placeholder is left is not empty
    have hopen' := (ht.hasBrackets hOne).symm.trans hopen
    rw [hu.eq_typeText, hu'.eq_typeText]
    refine iff_of_false (Template.ne_empty_of_hasBrackets ?_) (Template.ne_empty_of_hasBrackets ?_)
    · rwa [Application.hasBrackets_typeText (hOne hone).brackets]
    · rwa [Application.hasBrackets_typeText (hOne hone).brackets']

/-- Two libraries, of which one may declare the name, make the same of every type but for it. -/
theorem captures_fits (hN : N ≠ "") {app : Application} {types : List String}
    (hone : One app (app.declaring types)) : (captures N One).Fits app types where
  qualify _ s := .template hone (app.reads_qualify s) ((app.declaring types).reads_qualify s)
    (qualify_of_differsAt (hOne hone))
  brackets hs := hs.hasBrackets hOne
  typeText _ t := .template hone (app.readsText_typeText t)
    ((app.declaring types).readsText_typeText t) (typeText_of_differsAt (hOne hone))
  again {_ t t'} ht hopen := by
    refine .again ht hopen hone (app.readsText_typeText t)
      ((app.declaring types).readsText_typeText t') ?_
    rintro rfl hnone
    exact typeText_of_differsAt (hOne hone) hnone
  textBrackets ht := ht.hasBrackets hOne
  empty ht := ht.eq_empty hOne hN

end Fits

end Raml
