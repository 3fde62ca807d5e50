import Raml.Proofs.Merge.Alike
import Raml.Proofs.Shape.Renamed

/-!
# The types of a template, qualified

Merging a template of a library into a method that says nothing leaves a method whose types are
those of the template, filled in and qualified. What they are before they are qualified is what the
same library would make of them if it declared no type, so the two results are compared
(`qualified_of_merge`): place by place, the names that the first one mentions are those in the
second one, the declared ones renamed, and none of them is left as it was declared.

The items of a parameter are the exception. They are copied as a node of any other kind is, and
stay as they are filled in. So the comparison only holds where they mention no declared type.
-/

namespace Raml

open Shape (Scope opensSchema isSchema)

/-! ## Places for types -/

/-- What stands in a place for a type. -/
inductive Position where
  /-- The shape of a body, of one of its properties or of a query string. -/
  | shape (s : Shape)
  /-- The type of a parameter. -/
  | text (t : String)
  /-- The items of a parameter. -/
  | node (v : Value)

namespace Position

/-- The names of types that are mentioned in a place. -/
def mentions : Position → List String
  | .shape s => s.mentions
  | .text t => (Shape.ofText t).mentions
  | .node v =>
    match Shape.ofValue v with
    | .ok s => s.mentions
    | .error _ => []

/-- Whether what stands in a place can be told from the text of a schema and is filled in. -/
def IsPlain : Position → Prop
  | .shape s => ∀ t ∈ s.references, ¬opensSchema t.toList
  | .text t => Template.hasBrackets t = false ∧
      (isSchema t.toList = true ∨ ¬opensSchema t.toList)
  | .node _ => True

/-- Whether it is the items of a parameter that stand in a place. -/
def IsNode : Position → Prop
  | .node _ => True
  | _ => False

instance : DecidablePred IsPlain
  | .shape s => inferInstanceAs (Decidable (∀ t ∈ s.references, ¬opensSchema t.toList))
  | .text t => inferInstanceAs (Decidable (Template.hasBrackets t = false ∧
      (isSchema t.toList = true ∨ ¬opensSchema t.toList)))
  | .node _ => .isTrue trivial

instance : DecidablePred IsNode
  | .shape _ => .isFalse id
  | .text _ => .isFalse id
  | .node _ => .isTrue trivial

/-- Whether the names in one place are those in another, the declared ones renamed. -/
def Renamed (sc : Scope) (q q₀ : Position) : Prop :=
  q₀.IsPlain → q.mentions = q₀.mentions.map sc.rename

/-- Whether two places hold the same but for the types that are qualified. -/
inductive Alike (L : Likeness) : Position → Position → Prop where
  | shape {own : Option Shape} {s s' : Shape} : L.shape own s s' → Alike L (.shape s) (.shape s')
  | text {own : Option String} {t t' : String} : L.text own t t' → Alike L (.text t) (.text t')
  | node (v : Value) : Alike L (.node v) (.node v)

end Position

/-- The places for types in a parameter. -/
def Parameter.positions (p : Parameter) : List Position :=
  p.type.toList.map .text ++ [.node p.items]

/-- The places for types in a body. -/
def Body.positions (b : Body) : List Position :=
  (b.type.toList ++ b.items.toList ++ b.properties.map Prod.snd).map .shape ++
    b.headers.flatMap fun e => e.2.positions

/-- The places for types in the bodies of a message. -/
def Bodies.positions (b : Bodies) : List Position := b.all.flatMap Body.positions

/-- The places for types in a response. -/
def Response.positions (r : Response) : List Position :=
  (r.headers.flatMap fun e => e.2.positions) ++ r.bodies.positions

/-- The places for types in a method. -/
def Method.positions (m : Method) : List Position :=
  (m.queryParameters.flatMap fun e => e.2.positions) ++
    (m.headers.flatMap fun e => e.2.positions) ++
    m.queryString.toList.map .shape ++ (m.responses.flatMap fun e => e.2.positions) ++
    m.bodies.positions

/-! ## Places of entities alike -/

section Alike

variable {L : Likeness}

theorem forall₂_toList {α β : Type} {R : α → β → Prop} {o : Option α} {o' : Option β}
    (h : Option.Rel R o o') : List.Forall₂ R o.toList o'.toList := by
  cases h with
  | none => exact .nil
  | some h => exact .cons h .nil

theorem forall₂_shapes {own s s' : Option Shape} (h : Option.Rel (L.shape own) s s') :
    List.Forall₂ (fun s s' => ∃ own, L.shape own s s') s.toList s'.toList :=
  (forall₂_toList h).imp fun _ _ hs => ⟨own, hs⟩

/-- The entries of tables that are alike. -/
theorem Table.Alike.entries {α : Type} {R : Option α → α → α → Prop} {own t t' : Table α}
    (h : Table.Alike R own t t') : List.Forall₂ (fun e e' => ∃ o, R o e.2 e'.2) t t' :=
  List.Forall₂.imp (fun _ _ ⟨_, o, _, hR⟩ => ⟨o, hR⟩) h

theorem Parameter.Alike.positions {own : Option Parameter} {p p' : Parameter}
    (h : Parameter.Alike L own p p') :
    List.Forall₂ (Position.Alike L) p.positions p'.positions := by
  have hitems : p'.items = p.items := by rw [h.others]
  rw [Parameter.positions, Parameter.positions, hitems]
  refine List.rel_append ?_ (.cons (.node _) .nil)
  rw [List.forall₂_map_left_iff, List.forall₂_map_right_iff]
  exact (forall₂_toList h.type).imp fun _ _ => .text

theorem Parameter.positions_of_alike {own t t' : Table Parameter}
    (h : Table.Alike (Parameter.Alike L) own t t') : List.Forall₂ (Position.Alike L)
      (t.flatMap fun e => e.2.positions) (t'.flatMap fun e => e.2.positions) :=
  List.rel_flatMap h.entries fun _ _ ⟨_, he⟩ => he.positions

theorem Position.alike_shapes {ss ss' : List Shape}
    (h : List.Forall₂ (fun s s' => ∃ own, L.shape own s s') ss ss') :
    List.Forall₂ (Position.Alike L) (ss.map .shape) (ss'.map .shape) := by
  rw [List.forall₂_map_left_iff, List.forall₂_map_right_iff]
  exact h.imp fun _ _ ⟨_, hs⟩ => .shape hs

/-- Like bodies have their types in the same places, and they are alike. -/
theorem Body.Alike.positions {own : Option Body} {b b' : Body} (h : Body.Alike L own b b') :
    List.Forall₂ (Position.Alike L) b.positions b'.positions := by
  refine List.rel_append (Position.alike_shapes (List.rel_append (List.rel_append
    (forall₂_shapes h.type) (forall₂_shapes h.items)) ?_)) (Parameter.positions_of_alike h.headers)
  rw [List.forall₂_map_left_iff, List.forall₂_map_right_iff]
  exact h.properties.entries

theorem Bodies.Alike.positions {own : Option Bodies} {b b' : Bodies} (h : Bodies.Alike L own b b') :
    List.Forall₂ (Position.Alike L) b.positions b'.positions := by
  have hall : List.Forall₂ (fun b b' => ∃ own, Body.Alike L own b b') b.all b'.all := by
    refine List.rel_append ((forall₂_toList h.flat).imp fun _ _ hb => ⟨_, hb⟩) ?_
    rw [List.forall₂_map_left_iff, List.forall₂_map_right_iff]
    exact h.byMediaType.entries
  exact List.rel_flatMap hall fun _ _ ⟨_, hb⟩ => hb.positions

theorem Response.Alike.positions {own : Option Response} {r r' : Response}
    (h : Response.Alike L own r r') :
    List.Forall₂ (Position.Alike L) r.positions r'.positions :=
  List.rel_append (Parameter.positions_of_alike h.headers) h.bodies.positions

/-- So have like methods. -/
theorem Method.Alike.positions {own : Option Method} {m m' : Method}
    (h : Method.Alike L own m m') :
    List.Forall₂ (Position.Alike L) m.positions m'.positions :=
  List.rel_append (List.rel_append (List.rel_append (List.rel_append
    (Parameter.positions_of_alike h.queryParameters) (Parameter.positions_of_alike h.headers))
    (Position.alike_shapes (forall₂_shapes h.queryString)))
    (List.rel_flatMap h.responses.entries fun _ _ ⟨_, he⟩ => he.positions)) h.bodies.positions

end Alike

/-! ## Qualified types -/

namespace Merge

variable {app : Application} {A : String}

open Application (hasBrackets)

/-- How two methods differ that the types of a library make of one template, if in the second one
the library declares none. -/
def renamed (sc : Scope) : Likeness where
  shape _ s s₀ := hasBrackets s.toValue = hasBrackets s₀.toValue ∧
    Position.Renamed sc (.shape s) (.shape s₀)
  text _ t t₀ := Template.hasBrackets t = Template.hasBrackets t₀ ∧ (t = "" ↔ t₀ = "") ∧
    Position.Renamed sc (.text t) (.text t₀)

theorem map_rename_nil (A : String) (names : List String) :
    names.map (Scope.rename ⟨A, []⟩) = names :=
  List.map_id'' (fun _ => rfl) names

theorem mentions_text (t : String) :
    (Position.text t).mentions = Shape.Expression.namesIn t.toList :=
  Shape.mentions_ofChars _

/-- A schema mentions no type. -/
theorem mentions_of_isSchema {t : String} (ht : isSchema t.toList = true) :
    (Position.text t).mentions = [] := by
  rw [Position.mentions, Shape.ofText, Shape.Expression.ofChars_of_isSchema ht]
  rfl

section Renamed

variable {types : List String} (h : Scope.IsWorded ⟨A, types⟩)
include h

theorem isWorded_nil : Scope.IsWorded ⟨A, []⟩ := ⟨h.aliasName, List.forall_mem_nil _⟩

/-- A shape that is qualified with the declared names is the one that is qualified without, renamed.
-/
theorem renamed_shape (s : Shape) : Position.Renamed ⟨A, types⟩
    (.shape (s.qualify ⟨A, types⟩)) (.shape (s.qualify ⟨A, []⟩)) := by
  intro hplain
  have hs : ∀ t ∈ s.references, ¬opensSchema t.toList := by
    intro t ht
    rw [← Shape.referenceText_iff Shape.isSeen_opensSchema
      (isWorded_nil h).aliasName.not_opensSchema]
    refine hplain _ ?_
    rw [Shape.references_qualify]
    exact List.mem_map_of_mem ht
  rw [Position.mentions, Position.mentions, Shape.mentions_qualify h hs,
    Shape.mentions_qualify (isWorded_nil h) hs, map_rename_nil]

theorem rename_empty : Scope.rename ⟨A, types⟩ "" = "" := by
  have hempty : "" ∉ types := fun hmem => (h.declared _ hmem).ne_empty rfl
  rw [Scope.rename, if_neg (by simpa using hempty)]

/-- A text that is left as it is mentions nothing that is declared. -/
theorem renamed_kept {t : String} (ht : t = "" ∨ isSchema t.toList = true) :
    Position.Renamed ⟨A, types⟩ (.text t) (.text t) := by
  intro _
  rcases ht with rfl | ht
  · have hnames : (Position.text "").mentions = [""] := by decide +kernel
    rw [hnames, List.map_singleton, rename_empty h]
  · rw [mentions_of_isSchema ht]
    rfl

/-- So it is with the text of a type. -/
theorem renamed_text (t : String) : Position.Renamed ⟨A, types⟩
    (.text ((Shape.ofText t).qualify ⟨A, types⟩).render)
    (.text ((Shape.ofText t).qualify ⟨A, []⟩).render) := by
  have hnil := isWorded_nil h
  rintro ⟨-, hschema | hplain⟩
  · have hschema' := hschema
    rw [Shape.isSchema_qualify hnil h] at hschema'
    rw [mentions_of_isSchema hschema, mentions_of_isSchema hschema']
    rfl
  · rw [Shape.render_qualify_iff Shape.isSeen_opensSchema hnil.aliasName.not_opensSchema,
      Shape.ofText, Shape.isSeen_opensSchema.render_ofChars] at hplain
    rw [mentions_text, mentions_text, Shape.ofText, Shape.namesIn_qualify h hplain,
      Shape.namesIn_qualify hnil hplain, map_rename_nil]

end Renamed

section Fits

variable (halias : app.aliasName = some A) (h : Scope.IsWorded ⟨A, app.types⟩)
include halias h

theorem hasBrackets_aliasName? : ∀ a ∈ app.aliasName?, Template.hasBrackets a = false := by
  rw [Application.aliasName?_eq halias h.aliasName.ne_empty]
  rintro _ ⟨⟩
  exact h.aliasName.hasBrackets

/-- Placeholders are left in the text of a type where they were, whatever the library declares. -/
theorem hasBrackets_typeTexts (t : String) :
    Template.hasBrackets (app.typeText t) = Template.hasBrackets t ∧
      Template.hasBrackets ((app.declaring []).typeText t) = Template.hasBrackets t := by
  have hbrackets := hasBrackets_aliasName? halias h
  exact ⟨Application.hasBrackets_typeText hbrackets t,
    Application.hasBrackets_typeText (show ∀ a ∈ (app.declaring []).aliasName?, _ from hbrackets) t⟩

theorem qualify_both (s : Shape) : app.qualify s = s.qualify ⟨A, app.types⟩ ∧
    (app.declaring []).qualify s = s.qualify ⟨A, []⟩ :=
  ⟨Application.qualify_eq halias h.aliasName.ne_empty s,
    Application.qualify_eq (show (app.declaring []).aliasName = _ from halias) h.aliasName.ne_empty
      s⟩

theorem renamed_qualify (own : Option Shape) (s : Shape) :
    (renamed ⟨A, app.types⟩).shape own (app.qualify s) ((app.declaring []).qualify s) := by
  have hbrackets := hasBrackets_aliasName? halias h
  have hbrackets' : ∀ a ∈ (app.declaring []).aliasName?, Template.hasBrackets a = false := hbrackets
  refine ⟨?_, ?_⟩
  · rw [Application.hasBrackets_qualify hbrackets, Application.hasBrackets_qualify hbrackets']
  · obtain ⟨hqualify, hqualify'⟩ := qualify_both halias h s
    rw [hqualify, hqualify']
    exact renamed_shape h s

theorem renamed_typeText (own : Option String) (t : String) :
    (renamed ⟨A, app.types⟩).text own (app.typeText t) ((app.declaring []).typeText t) := by
  obtain ⟨htext, htext'⟩ := hasBrackets_typeTexts halias h t
  refine ⟨htext.trans htext'.symm, ?_⟩
  rw [Application.typeText, Application.typeText]
  split
  · rename_i hkept
    refine ⟨Iff.rfl, renamed_kept h ?_⟩
    rwa [Bool.or_eq_true, String.isEmpty_iff] at hkept
  · obtain ⟨hqualify, hqualify'⟩ := qualify_both halias h (Shape.ofText t)
    rw [hqualify, hqualify']
    refine ⟨Shape.render_qualify_eq_empty ?_ _, renamed_text h t⟩
    exact iff_of_true (rename_empty h) (rename_empty (isWorded_nil h))

/-- Of a text in which a placeholder is left nothing is said but that, and another library leaves
it there. -/
theorem renamed_typeText_again {own : Option String} {t t' : String}
    (ht : (renamed ⟨A, app.types⟩).text own t t') (hopen : Template.hasBrackets t = true) :
    (renamed ⟨A, app.types⟩).text own (app.typeText t) ((app.declaring []).typeText t') := by
  have hopen' := ht.1.symm.trans hopen
  have htext := (hasBrackets_typeTexts halias h t).1
  have htext' := (hasBrackets_typeTexts halias h t').2
  refine ⟨?_, ?_, ?_⟩
  · rw [htext, htext', ht.1]
  · exact iff_of_false (Template.ne_empty_of_hasBrackets (htext.trans hopen))
      (Template.ne_empty_of_hasBrackets (htext'.trans hopen'))
  · rintro ⟨hfilled, -⟩
    rw [htext', hopen'] at hfilled
    cases hfilled

/-- What the types of a library make of a template is what it makes of it without them, renamed. -/
theorem renamed_fits : (renamed ⟨A, app.types⟩).Fits app [] where
  qualify := renamed_qualify halias h
  brackets hs := hs.1
  typeText := renamed_typeText halias h
  again := renamed_typeText_again halias h
  textBrackets ht := ht.1
  empty ht := ht.2.1

end Fits

/-- Places hold what they would hold without the types of the library, renamed. -/
theorem renamed_of_alike {sc : Scope} {q q₀ : Position} (h : q.Alike (renamed sc) q₀)
    (hplain : q₀.IsPlain) (hnode : q₀.IsNode → ∀ n ∈ q₀.mentions, n ∉ sc.declared) :
    q.mentions = q₀.mentions.map sc.rename := by
  cases h with
  | shape h => exact h.2 hplain
  | text h => exact h.2.2 hplain
  | node v =>
    have hsame : ∀ n ∈ (Position.node v).mentions, sc.rename n = n := by
      intro n hn
      rw [Scope.rename, if_neg (by simpa using hnode trivial n hn)]
    rw [List.map_congr_left hsame, List.map_id']

/-- **The types of a template are qualified.** A template of a library is merged into a method that
says nothing. Then it can be merged so as well if the library declares no types, and each place for
a type mentions the names that it mentions then, the declared ones renamed; so none is mentioned as
it was declared. This is so if what stands in the places can be told from schemas, and the items of
parameters mention no declared type. -/
theorem qualified_of_merge (halias : app.aliasName = some A)
    (h : Scope.IsProper ⟨A, app.types⟩) {V : String} {template m : Method}
    (hm : method app (.named V) template = .ok m) :
    ∃ m₀, method (app.declaring []) (.named V) template = .ok m₀ ∧
      ((∀ q ∈ m₀.positions, q.IsPlain ∧ (q.IsNode → ∀ n ∈ q.mentions, n ∉ app.types)) →
        List.Forall₂ (fun q q₀ => q.mentions = q₀.mentions.map (Scope.rename ⟨A, app.types⟩))
          m.positions m₀.positions ∧
        ∀ q ∈ m.positions, ∀ n ∈ app.types, n ∉ q.mentions) := by
  have hL := renamed_fits halias h.isWorded
  obtain ⟨m₀, hm₀, hlike⟩ := method_alike hL (Method.alike_named none V) hm
  refine ⟨m₀, hm₀, fun hplaces => ?_⟩
  have hrenamed : List.Forall₂
      (fun q q₀ => q.mentions = q₀.mentions.map (Scope.rename ⟨A, app.types⟩))
      m.positions m₀.positions := by
    have hboth := (List.forall₂_and_left _ _).mpr ⟨hplaces, hlike.positions.flip⟩
    exact (hboth.imp fun q₀ q hq => renamed_of_alike hq.2 hq.1.1 hq.1.2).flip
  refine ⟨hrenamed, fun q hq n hn => ?_⟩
  obtain ⟨q₀, -, hq₀⟩ := exists_of_mem_left hrenamed hq
  rw [hq₀]
  exact Shape.not_mem_map_rename h hn _

/-- A library that declares one type. -/
def people : Application :=
  { Application.empty with
    dictionary := [("item", .str "Person")], aliasName := some "people", types := ["Person"] }

/-- A trait that names the type in a header, a property and the union that a body is an array of. -/
def directory : Method :=
  { Method.named "directory" with
    headers := [("X-Owner", { Parameter.named "X-Owner" with type := some "(<<item>> | Guest)[]" })]
    bodies := { Bodies.empty with
      flat := some { Body.empty with
        type := some (.array (.reference "Person | Guest"))
        properties := [("owner", .inline (some (.reference "Person")) [] none [])] } } }

/-- In a method made from `directory` the type has the name of the library before its own. -/
theorem directory_qualified : ∃ m, method people (.named "GET") directory = .ok m ∧
    m.positions.map Position.mentions =
      [["people.Person", "Guest"], [], ["people.Person", "Guest"], ["people.Person"]] ∧
    ∀ q ∈ m.positions, "Person" ∉ q.mentions := by
  obtain ⟨m, hm, hmentions⟩ : ∃ m, method people (.named "GET") directory = .ok m ∧
      m.positions.map Position.mentions =
        [["people.Person", "Guest"], [], ["people.Person", "Guest"], ["people.Person"]] :=
    toOption_map_eq_some.mp (by decide +kernel)
  obtain ⟨m₀, hm₀, hrenamed⟩ := qualified_of_merge rfl (by decide +kernel) hm
  have hplaces : (method (people.declaring []) (.named "GET") directory).toOption.map
      (fun m => decide (∀ q ∈ m.positions, q.IsPlain ∧
        (q.IsNode → ∀ n ∈ q.mentions, n ∉ people.types))) = some true := by
    decide +kernel
  rw [hm₀] at hplaces
  obtain ⟨-, hnone⟩ := hrenamed (of_decide_eq_true (Option.some.inj hplaces))
  exact ⟨m, hm, hmentions, fun q hq => hnone q hq _ (List.mem_singleton_self _)⟩

/-- A trait with a header that is a list of a declared type. -/
def roster : Method :=
  { Method.named "roster" with
    headers := [("X-Names", { Parameter.named "X-Names" with
      type := some "array", items := .str "Person" })] }

/-- The items of a parameter keep the bare name of a declared type. -/
theorem items_not_qualified :
    ¬∀ (app : Application) (A V : String) (template m : Method), app.aliasName = some A →
      Scope.IsProper ⟨A, app.types⟩ → (∀ n ∈ app.types, n ∉ Shape.builtins) →
      method app (.named V) template = .ok m →
      ∀ q ∈ m.positions, ∀ n ∈ app.types, n ∉ q.mentions := by
  intro h
  obtain ⟨m, hm, hbare⟩ : ∃ m, method people (.named "GET") roster = .ok m ∧
      m.positions.map Position.mentions = [[], ["Person"]] :=
    toOption_map_eq_some.mp (by decide +kernel)
  have hmem : ["Person"] ∈ m.positions.map Position.mentions := by
    rw [hbare]
    decide
  obtain ⟨q, hq, hmentions⟩ := List.mem_map.mp hmem
  refine h people "people" "GET" roster m rfl (by decide +kernel) (by decide) hm q hq "Person"
    (List.mem_singleton_self _) ?_
  rw [hmentions]
  exact List.mem_singleton_self _

end Merge

end Raml
