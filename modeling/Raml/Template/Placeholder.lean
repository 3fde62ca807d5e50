import Raml.Table
import Raml.Template.Inflector
import Raml.Value.Display

/-!
# Placeholders

A template text holds placeholders: a name between double angle brackets, and after bars the
inflectors that respell its value. `segments` cuts a text into placeholders and the characters
between them, and loses nothing (`ofSegments_segments`). `instantiate` fills in the placeholders
whose names a dictionary has and leaves the others as they are.

`substitute` lets the text of a child give way to that of its template when the child says
nothing or still has brackets of a placeholder in it; `expand` instantiates every text inside a
value, keys included.
-/

namespace Raml.Template

/-- The values of the names that placeholders may use. -/
abbrev Dictionary := Table Value

/-! ## Segments -/

/-- A character of a template text, or a placeholder with what stands inside it. -/
inductive Segment where
  | char (c : Char)
  | hole (inner : List Char)
  deriving DecidableEq, Repr

/-- Whether a character may stand inside a placeholder. -/
def isInner (c : Char) : Bool := c != '<' && c != '>'

/-- The inside of the placeholder whose opening brackets have just been passed, and the rest. -/
def inner? (cs : List Char) : Option (List Char × List Char) :=
  match cs.dropWhile isInner with
  | '>' :: '>' :: rest =>
    let inner := cs.takeWhile isInner
    if inner.isEmpty then none else some (inner, rest)
  | _ => none

theorem eq_of_inner? {cs inner rest : List Char} (h : inner? cs = some (inner, rest)) :
    cs = inner ++ '>' :: '>' :: rest := by
  unfold inner? at h
  split at h
  · rename_i r hr
    simp only at h
    split at h
    · cases h
    · simp only [Option.some.injEq, Prod.mk.injEq] at h
      obtain ⟨rfl, rfl⟩ := h
      rw [← hr, List.takeWhile_append_dropWhile]
  · cases h

/-- The placeholders of a text and the characters between them. -/
def segments (cs : List Char) : List Segment :=
  match cs with
  | [] => []
  | '<' :: '<' :: rest =>
    match h : inner? rest with
    | some (inner, after) =>
      have : after.length < rest.length + 2 := by
        have := congrArg List.length (eq_of_inner? h)
        simp at this
        omega
      .hole inner :: segments after
    | none => .char '<' :: segments ('<' :: rest)
  | c :: rest => .char c :: segments rest
termination_by cs.length

/-- The characters that a segment was cut from. -/
def Segment.source : Segment → List Char
  | .char c => [c]
  | .hole inner => '<' :: '<' :: inner ++ ['>', '>']

theorem ofSegments_segments (cs : List Char) : (segments cs).flatMap Segment.source = cs := by
  fun_induction segments cs with
  | case1 => rfl
  | case2 rest inner after h _ ih => simp [Segment.source, ih, eq_of_inner? h]
  | case3 rest h ih => simp [Segment.source, ih]
  | case4 c rest hc ih => simp [Segment.source, ih]

/-- Whether a text holds the brackets of a placeholder, opening or closing. -/
def hasBrackets (s : String) : Bool := Text.contains "<<" s || Text.contains ">>" s

/-- Whether a text holds a whole placeholder. -/
def hasPlaceholder (s : String) : Bool :=
  (segments s.toList).any fun
    | .char _ => false
    | .hole _ => true

theorem hasBrackets_of_hasPlaceholder {s : String} (h : hasPlaceholder s = true) :
    hasBrackets s = true := by
  simp only [hasPlaceholder, List.any_eq_true] at h
  obtain ⟨seg, hseg, hole⟩ := h
  cases seg with
  | char c => cases hole
  | hole inner =>
    have hsource : (Segment.hole inner).source <:+: s.toList := by
      rw [← ofSegments_segments s.toList]
      obtain ⟨before, after, hs⟩ := List.append_of_mem hseg
      rw [hs, List.flatMap_append, List.flatMap_cons]
      exact ⟨_, _, List.append_assoc _ _ _⟩
    have hopen : ['<', '<'] <:+: (Segment.hole inner).source := ⟨[], inner ++ ['>', '>'], rfl⟩
    have hcontains : Text.contains "<<" s = true := Text.contains_iff.2 (hopen.trans hsource)
    simp [hasBrackets, hcontains]

/-! ## Filling in -/

/-- The name and the inflectors of a placeholder. -/
def parts (inner : List Char) : List String :=
  (Text.split '|' inner).map fun p => String.ofList (Text.dropAround Text.isBlank p)

/-- What a segment becomes: a placeholder with an unknown name stays. -/
def Segment.fill (d : Dictionary) : Segment → Except Fault (List Char)
  | .char c => .ok [c]
  | .hole inner =>
    match parts inner with
    | [] => .ok (Segment.hole inner).source
    | name :: inflectors =>
      match d.get? name with
      | none => .ok (Segment.hole inner).source
      | some value =>
        if value.isShown then (inflectAll value.yamlText inflectors).map String.toList
        else .error .longNumber

/-- The segments filled in, one after another. -/
def fillAll (d : Dictionary) : List Segment → Except Fault (List Char)
  | [] => .ok []
  | s :: rest => do
    let here ← s.fill d
    let there ← fillAll d rest
    return here ++ there

/-- The text with its placeholders filled in. -/
def instantiate (d : Dictionary) (s : String) : Except Fault String :=
  (fillAll d (segments s.toList)).map String.ofList

/-- Whether the text of a child stands, whatever its template says. -/
def stands : Option String → Bool
  | none => false
  | some s => !s.isEmpty && !hasBrackets s

/-- The text of a child merged with the text of its template. -/
def substitute (child template : Option String) (d : Dictionary) :
    Except Fault (Option String) :=
  if stands child then .ok child
  else match template with
    | none => .ok child
    | some t => if t.isEmpty then .ok child else (instantiate d t).map some

mutual

/-- A value with the placeholders of all its texts filled in. -/
def expand (d : Dictionary) : Value → Except Fault Value
  | .str s => (instantiate d s).map .str
  | .list items => (expandItems d items).map .list
  | .map entries => (expandEntries d entries).map fun es => .map (Value.mapOf es)
  | v => .ok v

/-- Each item with its placeholders filled in. -/
def expandItems (d : Dictionary) : List Value → Except Fault (List Value)
  | [] => .ok []
  | v :: rest => do
    let here ← expand d v
    let there ← expandItems d rest
    return here :: there

/-- Each entry with the placeholders of its key and value filled in. -/
def expandEntries (d : Dictionary) : List (Value × Value) → Except Fault (List (Value × Value))
  | [] => .ok []
  | (k, v) :: rest => do
    let key ← expand d k
    let value ← expand d v
    let there ← expandEntries d rest
    return (key, value) :: there

end

end Raml.Template
