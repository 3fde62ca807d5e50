import Raml.Document.Api
import Raml.Proofs.Read.Rewritten

/-!
# The type expressions of an entity

`expressions` lists the type expressions in the node of an entity, at any depth: what stands in the
places that are read as shapes, in the node itself and in the nodes of the entities inside it.
-/

namespace Raml

/-! ## What is found in a node -/

/-- The type expressions in the node of an entity, given those in its fields. -/
def EntityForm.expressions {α : Type} (form : EntityForm α) (ofFields : Fields → List String)
    (v : Value) : List String :=
  (form.fields? v).toList.flatMap ofFields

/-- The type expressions in a field, given those in the node that stands there. -/
def Fields.expressions (ofNode : Value → List String) (found : Option (String × Value)) :
    List String :=
  found.toList.flatMap fun e => ofNode e.2

/-- The type expressions in the values of a mapping. -/
def Value.memberExpressions (ofNode : Value → List String) (v : Value) : List String :=
  v.members.flatMap ofNode

/-! ## Bodies and responses -/

def Body.fieldExpressions (f : Fields) : List String :=
  Fields.expressions Shape.expressions (f.find? ["type"]) ++
    Fields.expressions Shape.expressions (f.find? ["items"]) ++
    Fields.expressions (Value.memberExpressions Shape.expressions) (f.given? ["properties"])

/-- The type expressions of a body. -/
def Body.expressions : Value → List String := Body.form.expressions Body.fieldExpressions

def Bodies.fieldExpressions (f : Fields) : List String :=
  Fields.expressions Body.expressions (f.find? ["default"]) ++
    Fields.expressions (Value.memberExpressions Body.expressions) (f.given? ["media_types"])

/-- The type expressions of bodies. -/
def Bodies.expressions : Value → List String := Bodies.form.expressions Bodies.fieldExpressions

def Response.fieldExpressions (f : Fields) : List String :=
  Fields.expressions Bodies.expressions (f.given? ["body", "bodies"])

/-- The type expressions of a response. -/
def Response.expressions : Value → List String :=
  Response.form.expressions Response.fieldExpressions

/-! ## Methods and templates -/

def Method.fieldExpressions (f : Fields) : List String :=
  Fields.expressions Shape.expressions (f.find? ["queryString", "query_string"]) ++
    Fields.expressions (Value.memberExpressions Response.expressions) (f.given? ["responses"]) ++
    Fields.expressions Bodies.expressions (f.given? ["body", "bodies"])

/-- The type expressions of a method. -/
def Method.expressions : Value → List String := Method.form.expressions Method.fieldExpressions

/-- The type expressions of a trait. -/
def Trait.expressions : Value → List String := Trait.form.expressions Method.fieldExpressions

def ResourceType.fieldExpressions (f : Fields) : List String :=
  Fields.expressions (Value.memberExpressions Method.expressions) (f.given? ["methods"]) ++
    Fields.expressions (Value.memberExpressions Method.expressions) (f.given? ["optional_methods"])

/-- The type expressions of a resource type. -/
def ResourceType.expressions : Value → List String :=
  ResourceType.form.expressions ResourceType.fieldExpressions

/-! ## Declarations -/

def TypeDeclaration.fieldExpressions (f : Fields) : List String :=
  Fields.expressions Shape.expressions (f.find? ["type"]) ++
    Fields.expressions (Value.memberExpressions Shape.expressions) (f.given? ["properties"]) ++
    Fields.expressions Shape.expressions (f.find? ["items"])

/-- The type expressions of a declared type. -/
def TypeDeclaration.expressions : Value → List String :=
  TypeDeclaration.form.expressions TypeDeclaration.fieldExpressions

def DescribedBy.fieldExpressions (f : Fields) : List String :=
  Fields.expressions Shape.expressions (f.find? ["queryString", "query_string"]) ++
    Fields.expressions (Value.memberExpressions Response.expressions) (f.given? ["responses"])

/-- The type expressions in what a security scheme adds to messages. -/
def DescribedBy.expressions : Value → List String :=
  DescribedBy.form.expressions DescribedBy.fieldExpressions

def SecurityScheme.fieldExpressions (f : Fields) : List String :=
  Fields.expressions DescribedBy.expressions (f.given? ["describedBy", "described_by"])

/-- The type expressions of a security scheme. -/
def SecurityScheme.expressions : Value → List String :=
  SecurityScheme.form.expressions SecurityScheme.fieldExpressions

def Declarations.fieldExpressions (f : Fields) : List String :=
  Fields.expressions (Value.memberExpressions TypeDeclaration.expressions) (f.given? ["types"]) ++
    Fields.expressions (Value.memberExpressions Trait.expressions) (f.given? ["traits"]) ++
    Fields.expressions (Value.memberExpressions ResourceType.expressions)
      (f.given? ["resourceTypes", "resource_types"]) ++
    Fields.expressions (Value.memberExpressions SecurityScheme.expressions)
      (f.given? ["securitySchemes", "security_schemes"])

/-! ## Libraries -/

namespace Library

mutual

/-- The type expressions of a library and of the libraries in it. -/
def expressions : Value → List String
  | .map es =>
    ((form []).fieldsOf? es).toList.flatMap Declarations.fieldExpressions ++
      expressionsOfListed es
  | _ => []

/-- The type expressions of the libraries under the key `libraries`. -/
def expressionsOfListed : List (Value × Value) → List String
  | [] => []
  | (k, v) :: rest =>
    if k.key == "libraries" then expressionsOfMapping v else expressionsOfListed rest

/-- The type expressions of the libraries in a mapping. -/
def expressionsOfMapping : Value → List String
  | .map es => expressionsOfEntries es
  | _ => []

/-- The type expressions of the libraries in the entries of a mapping. -/
def expressionsOfEntries : List (Value × Value) → List String
  | [] => []
  | (_, v) :: rest => expressions v ++ expressionsOfEntries rest

end

end Library

/-! ## Resources -/

namespace Resource

def fieldExpressions (f : Fields) : List String :=
  Fields.expressions (Value.memberExpressions Method.expressions) (f.given? ["methods"])

mutual

/-- The type expressions of a resource and of the resources below it. -/
def expressions : Value → List String
  | .map es =>
    ((form []).fieldsOf? es).toList.flatMap fieldExpressions ++ expressionsOfListed es ++
      expressionsOfBranches es
  | _ => []

/-- The type expressions of the resources under the key `nested`. -/
def expressionsOfListed : List (Value × Value) → List String
  | [] => []
  | (k, v) :: rest =>
    if k.key == "nested" then expressionsOfMapping v else expressionsOfListed rest

/-- The type expressions of the resources under keys that begin with a slash. -/
def expressionsOfBranches : List (Value × Value) → List String
  | [] => []
  | (k, v) :: rest => (if isPath k.key then expressions v else []) ++ expressionsOfBranches rest

/-- The type expressions of the resources in a mapping. -/
def expressionsOfMapping : Value → List String
  | .map es => expressionsOfEntries es
  | _ => []

/-- The type expressions of the resources in the entries of a mapping. -/
def expressionsOfEntries : List (Value × Value) → List String
  | [] => []
  | (_, v) :: rest => expressions v ++ expressionsOfEntries rest

end

end Resource

/-! ## The root document -/

def Api.fieldExpressions (f : Fields) : List String :=
  Declarations.fieldExpressions f ++
    Fields.expressions (Value.memberExpressions Resource.expressions) (f.given? ["resources"])

/-- The type expressions of an API definition. -/
def Api.expressions : Value → List String
  | .map es =>
    ((Api.form []).fieldsOf? es).toList.flatMap Api.fieldExpressions ++
      Library.expressionsOfListed es
  | _ => []

/-! ## Clear expressions -/

open Shape (AllClear)

section Clear

variable {α : Type} {form : EntityForm α} {ofFields : Fields → List String}
  {ofNode : Value → List String}

theorem allClear_fieldsOf {es : List (Value × Value)} {f : Fields}
    (h : AllClear ((form.fieldsOf? es).toList.flatMap ofFields))
    (hf : form.fieldsOf? es = some f) : AllClear (ofFields f) := by
  rw [hf] at h
  exact List.forall_mem_flatMap.mp h f (List.mem_singleton_self f)

theorem allClear_fields {v : Value} {f : Fields} (h : AllClear (form.expressions ofFields v))
    (hf : form.fields? v = some f) : AllClear (ofFields f) := by
  rw [EntityForm.expressions, hf] at h
  exact List.forall_mem_flatMap.mp h f (List.mem_singleton_self f)

theorem allClear_found {found : Option (String × Value)}
    (h : AllClear (Fields.expressions ofNode found)) : ∀ e ∈ found, AllClear (ofNode e.2) :=
  fun e he => List.forall_mem_flatMap.mp h e (Option.mem_toList.mpr he)

/-- If a mapping holds no unclear type expression, none of its members does. -/
theorem allClear_members {v : Value} (h : AllClear (v.memberExpressions ofNode)) :
    ∀ w ∈ v.members, AllClear (ofNode w) :=
  List.forall_mem_flatMap.mp h

end Clear

end Raml
