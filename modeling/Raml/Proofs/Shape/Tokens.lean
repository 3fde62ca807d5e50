import Raml.Proofs.Shape.Members
import Raml.Proofs.Shape.Names

/-!
# Shapes token by token

A union is one text, in which blanks and some parentheses mean nothing. `tokens` says what a shape
means in the order in which it is written: built-in types, texts of schemas and names, where arrays
begin and end, and the facets, the fields and the keys of declarations. The tokens of a union are
those of its members, each read as an expression, one after another; so members that are unions
themselves do not show, and an array of a union has all of its members between its ends.

The names among the tokens are those that the shape mentions (`names_tokens`). Everything else is
here to say that it stays when the names change (`rename_tokensWith`).
-/

namespace Raml.Shape

open Expression

/-- What a shape is made of, as far as it means something. -/
inductive Token where
  /-- A built-in type, or the text of a schema. -/
  | scalar (text : String)
  /-- The name of a type, which is no union. -/
  | name (name : String)
  /-- The beginning of an array. -/
  | opens
  /-- The end of an array. -/
  | closes
  /-- The beginning of a declaration with these facets. -/
  | declares (facets : List (String × Value))
  /-- The type of a declaration comes next. -/
  | type
  /-- The property with this key comes next. -/
  | property (key : String)
  /-- The items of a declaration come next. -/
  | items
  /-- The end of a declaration. -/
  | ends

/-- The name that a token is. -/
def Token.name? : Token → Option String
  | .name n => some n
  | _ => none

/-- A token with the declared names renamed. -/
def Token.rename (sc : Scope) : Token → Token
  | .name n => .name (sc.rename n)
  | token => token

mutual

/-- The tokens of a shape, given those of its references. -/
def tokensWith (f : String → List Token) : Shape → List Token
  | .scalar text => [.scalar text]
  | .reference name => f name
  | .array element => .opens :: (element.tokensWith f ++ [.closes])
  | .inline type properties items facets =>
    .declares facets :: (optionTokens f .type type ++ propertyTokens f properties ++
      optionTokens f .items items ++ [.ends])

/-- The tokens of a shape that may be missing, after one that says what it is. -/
def optionTokens (f : String → List Token) (start : Token) : Option Shape → List Token
  | none => []
  | some shape => start :: shape.tokensWith f

/-- The tokens of properties, each after its key. -/
def propertyTokens (f : String → List Token) : List (String × Shape) → List Token
  | [] => []
  | (key, shape) :: rest => .property key :: (shape.tokensWith f ++ propertyTokens f rest)

end

namespace Expression

/-- The tokens of an expression; of a union, those of its members. -/
def tokensIn (cs : List Char) : List Token :=
  match _core : (ofChars cs).core with
  | .reference name =>
    if _union : hasUnion name.toList = true then
      let tokens := (memberChars name.toList).attach.flatMap fun ⟨m, _⟩ => tokensIn m
      (ofChars cs).tokensWith fun _ => tokens
    else (ofChars cs).tokensWith fun name => [.name name]
  | _ => (ofChars cs).tokensWith fun _ => []
termination_by cs.length
decreasing_by
  rename_i hm
  exact Nat.lt_of_lt_of_le (length_lt_of_mem_memberChars _union hm) (length_le_of_core _core)

/-- The tokens of a reference. -/
def referenceTokens (name : String) : List Token :=
  if hasUnion name.toList then (memberChars name.toList).flatMap tokensIn else [.name name]

end Expression

/-- The tokens of a shape. -/
def tokens (s : Shape) : List Token := s.tokensWith referenceTokens

/-! ## Tokens of references -/

section Congr

variable {f g : String → List Token}

mutual

/-- The tokens of a shape depend on those of its references alone. -/
theorem tokensWith_congr : ∀ s : Shape, (∀ t ∈ s.references, f t = g t) →
    s.tokensWith f = s.tokensWith g
  | .scalar _, _ => rfl
  | .reference name, h => h name (List.mem_singleton_self name)
  | .array element, h => by rw [tokensWith, tokensWith, tokensWith_congr element h]
  | .inline type properties items facets, h => by
      simp only [references, List.forall_mem_append] at h
      rw [tokensWith, tokensWith, optionTokens_congr .type type h.1.1,
        propertyTokens_congr properties h.1.2, optionTokens_congr .items items h.2]

theorem optionTokens_congr (start : Token) : ∀ s : Option Shape,
    (∀ t ∈ referencesOfOption s, f t = g t) → optionTokens f start s = optionTokens g start s
  | none, _ => rfl
  | some shape, h => congrArg (start :: ·) (tokensWith_congr shape h)

theorem propertyTokens_congr : ∀ ps : List (String × Shape),
    (∀ t ∈ referencesOfEntries ps, f t = g t) → propertyTokens f ps = propertyTokens g ps
  | [], _ => rfl
  | (_, shape) :: rest, h => by
      rw [referencesOfEntries, List.forall_mem_append] at h
      rw [propertyTokens, propertyTokens, tokensWith_congr shape h.1,
        propertyTokens_congr rest h.2]

end

end Congr

/-- The tokens of what is read of an expression are those of the expression. -/
theorem tokens_ofChars (cs : List Char) : (ofChars cs).tokens = tokensIn cs := by
  rw [tokens, tokensIn]
  split
  · rename_i name hcore
    -- an expression has no other reference than its core
    have hall : ∀ t ∈ (ofChars cs).references, t = name := fun t ht =>
      Shape.reference.inj ((core_of_mem_references ht).symm.trans hcore)
    split
    · rename_i hunion
      refine tokensWith_congr _ fun t ht => ?_
      rw [hall t ht, referenceTokens, if_pos hunion, List.flatMap_subtype, List.unattach_attach]
      exact fun _ _ => rfl
    · rename_i hunion
      refine tokensWith_congr _ fun t ht => ?_
      rw [referenceTokens, if_neg (by rwa [hall t ht])]
  · rename_i hne
    exact tokensWith_congr _ fun t ht => absurd (core_of_mem_references ht) (hne t)

theorem tokensIn_of_reference {cs : List Char} {name : String} (h : ofChars cs = .reference name) :
    tokensIn cs = referenceTokens name := by
  rw [← tokens_ofChars, h, tokens, tokensWith]

/-! ## The names among the tokens -/

section Names

variable {f : String → List Token}

/-- The names among some tokens. -/
def namesAmong (ts : List Token) : List String := ts.filterMap Token.name?

theorem namesAmong_append (ts us : List Token) :
    namesAmong (ts ++ us) = namesAmong ts ++ namesAmong us :=
  List.filterMap_append

mutual

/-- The names among the tokens of a shape are those of its references, in order. -/
theorem namesAmong_tokensWith :
    ∀ s : Shape, namesAmong (s.tokensWith f) = s.references.flatMap fun t => namesAmong (f t)
  | .scalar _ => rfl
  | .reference name => (List.flatMap_singleton ..).symm
  | .array element => by
      rw [tokensWith, references, ← namesAmong_tokensWith element, ← List.singleton_append,
        namesAmong_append, namesAmong_append]
      exact List.append_nil _
  | .inline type properties items facets => by
      rw [tokensWith, references, List.flatMap_append, List.flatMap_append,
        ← namesAmong_optionTokens .type rfl type, ← namesAmong_optionTokens .items rfl items,
        ← namesAmong_propertyTokens properties, ← List.singleton_append]
      simp only [namesAmong_append]
      exact List.append_nil _

theorem namesAmong_optionTokens (start : Token) (hstart : start.name? = none) :
    ∀ s : Option Shape, namesAmong (optionTokens f start s) =
      (referencesOfOption s).flatMap fun t => namesAmong (f t)
  | none => rfl
  | some shape => by
      rw [optionTokens, namesAmong, List.filterMap_cons_none hstart]
      exact namesAmong_tokensWith shape

theorem namesAmong_propertyTokens : ∀ ps : List (String × Shape),
    namesAmong (propertyTokens f ps) = (referencesOfEntries ps).flatMap fun t => namesAmong (f t)
  | [] => rfl
  | (_, shape) :: rest => by
      rw [propertyTokens, referencesOfEntries, List.flatMap_append,
        ← namesAmong_tokensWith shape, ← namesAmong_propertyTokens rest, ← namesAmong_append]
      rfl

end

/-- The names among the tokens of a reference are its names. -/
theorem namesAmong_referenceTokens (name : String) :
    namesAmong (referenceTokens name) = referenceNames name := by
  induction name using reference_induction with
  | step name ih =>
    rw [referenceTokens, referenceNames]
    split
    · rename_i hunion
      rw [namesAmong, List.filterMap_flatMap]
      refine List.flatMap_congr fun m hm => ?_
      rw [← tokens_ofChars, ← mentions_ofChars]
      exact (namesAmong_tokensWith _).trans (List.flatMap_congr (ih hunion m hm))
    · rfl

/-- The names among the tokens of a shape are those that it mentions. -/
theorem names_tokens (s : Shape) : namesAmong s.tokens = s.mentions := by
  rw [tokens, namesAmong_tokensWith, mentions]
  exact List.flatMap_congr fun t _ => namesAmong_referenceTokens t

/-- Renaming tokens renames the names among them. -/
theorem namesAmong_rename (sc : Scope) (ts : List Token) :
    namesAmong (ts.map (Token.rename sc)) = (namesAmong ts).map sc.rename := by
  rw [namesAmong, namesAmong, List.filterMap_map, List.map_filterMap]
  refine List.filterMap_congr fun t _ => ?_
  cases t <;> rfl

end Names

/-! ## Qualified shapes -/

section Qualify

variable {sc : Scope} {f : String → List Token}

mutual

/-- Qualifying changes the tokens of references and nothing else. -/
theorem tokensWith_qualify :
    ∀ s : Shape, (s.qualify sc).tokensWith f = s.tokensWith fun t => f (sc.referenceText t)
  | .scalar _ => rfl
  | .reference name => by rw [qualify, Scope.reference_eq, tokensWith, tokensWith]
  | .array element => by rw [qualify, tokensWith, tokensWith, tokensWith_qualify element]
  | .inline type properties items facets => by
      rw [qualify, tokensWith, tokensWith, optionTokens_qualify .type type,
        propertyTokens_qualify properties, optionTokens_qualify .items items]

theorem optionTokens_qualify (start : Token) : ∀ s : Option Shape,
    optionTokens f start (qualifyOption sc s) =
      optionTokens (fun t => f (sc.referenceText t)) start s
  | none => rfl
  | some shape => congrArg (start :: ·) (tokensWith_qualify shape)

theorem propertyTokens_qualify : ∀ ps : List (String × Shape),
    propertyTokens f (qualifyEntries sc ps) = propertyTokens (fun t => f (sc.referenceText t)) ps
  | [] => rfl
  | (_, shape) :: rest => by
      rw [qualifyEntries, propertyTokens, propertyTokens, tokensWith_qualify shape,
        propertyTokens_qualify rest]

end

mutual

/-- Renaming the names among the tokens changes the tokens of references and nothing else. -/
theorem rename_tokensWith : ∀ s : Shape, (s.tokensWith f).map (Token.rename sc) =
    s.tokensWith fun t => (f t).map (Token.rename sc)
  | .scalar _ => rfl
  | .reference _ => rfl
  | .array element => by
      rw [tokensWith, tokensWith, List.map_cons, List.map_append, rename_tokensWith element]
      rfl
  | .inline type properties items facets => by
      rw [tokensWith, tokensWith, List.map_cons, List.map_append, List.map_append,
        List.map_append, rename_optionTokens .type rfl type,
        rename_optionTokens .items rfl items, rename_propertyTokens properties]
      rfl

theorem rename_optionTokens (start : Token) (hstart : start.rename sc = start) :
    ∀ s : Option Shape, (optionTokens f start s).map (Token.rename sc) =
      optionTokens (fun t => (f t).map (Token.rename sc)) start s
  | none => rfl
  | some shape => by
      rw [optionTokens, optionTokens, List.map_cons, hstart, rename_tokensWith shape]

theorem rename_propertyTokens : ∀ ps : List (String × Shape),
    (propertyTokens f ps).map (Token.rename sc) =
      propertyTokens (fun t => (f t).map (Token.rename sc)) ps
  | [] => rfl
  | (_, shape) :: rest => by
      rw [propertyTokens, propertyTokens, List.map_cons, List.map_append,
        rename_tokensWith shape, rename_propertyTokens rest]
      rfl

end

end Qualify

end Raml.Shape
