import Raml.Yaml.Layout
import Raml.Yaml.Tag

/-!
# Nodes

The tree of a YAML document: scalars, lists and mappings, each with a tag. `Node.ofTokens?` reads
the one document that a text may hold. An alias stands for the node that its anchor was put on,
and an anchor may be put on only one node.

Reading goes from left to right and every part takes at least one token, so it ends; where a part
is read by another function, that it took something is checked on the way.
-/

namespace Raml.Yaml

/-- A node with its tag. -/
inductive Node where
  | scalar (tag : Tag) (text : String)
  | list (tag : Tag) (items : List Node)
  | map (tag : Tag) (entries : List (Node × Node))
  /-- A collection that this node is a part of. -/
  | around

namespace Node

/-- The tag of a node. -/
def tag : Node → Tag
  | .scalar tag _ => tag
  | .list tag _ => tag
  | .map tag _ => tag
  | .around => .map

/-- The node where nothing is written. -/
def nothing : Node := .scalar .null ""

instance : Inhabited Node := ⟨nothing⟩

/-- The nodes that anchors are on; one that is still being read is missing. -/
abbrev Anchors := List (String × Option Node)

/-- Something read, the tokens after it, and the anchors passed. -/
abbrev Progress (α : Type) := α × List Token × Anchors

/-- Says which node an anchor is on. -/
def Anchors.put (anchors : Anchors) (name : Option String) (n : Option Node) : Anchors :=
  match name with
  | some a => (a, n) :: anchors
  | none => anchors

/-- The node that an alias stands for. -/
def Anchors.resolve (anchors : Anchors) (name : String) : Except Fault Node :=
  match anchors.find? (·.1 == name) with
  | none => .error .malformed
  | some (_, none) => .ok .around
  | some (_, some n) => .ok n

/-! ## What is written before the content -/

/-- The anchor and the tag in front of a node. -/
structure Properties where
  anchor : Option String
  tag : Option TagName

/-- The properties at the start, and the tokens after them. -/
def properties : List Token → Properties × List Token
  | .anchor a :: .tag t :: rest => (⟨some a, some t⟩, rest)
  | .tag t :: .anchor a :: rest => (⟨some a, some t⟩, rest)
  | .anchor a :: rest => (⟨some a, none⟩, rest)
  | .tag t :: rest => (⟨none, some t⟩, rest)
  | rest => (⟨none, none⟩, rest)

theorem length_properties_le (ts : List Token) : (properties ts).2.length ≤ ts.length := by
  unfold properties
  split <;> simp <;> omega

/-- The handles of tags and what they stand for. -/
abbrev Handles := List (String × String)

/-- How a node says what it is. -/
inductive Asked where
  /-- By a tag. -/
  | tag (t : Tag)
  /-- By its spelling, even between quotes. -/
  | spelling
  /-- Not at all. -/
  | nothing

/-- What a node's tag asks for; a lone exclamation mark asks for the spelling. -/
def asked (handles : Handles) : Option TagName → Except Fault Asked
  | none => .ok .nothing
  | some (.whole name) => .ok (if name = "!" then .spelling else .tag (Tag.ofName name))
  | some (.short handle suffix) =>
    match handles.find? (·.1 == handle) with
    | none => .error .malformed
    | some (_, lead) =>
      let name := lead ++ suffix
      .ok (if name = "!" then .spelling else .tag (Tag.ofName name))

/-- The tag of a scalar. -/
def Asked.scalar (a : Asked) (text : String) (plain : Bool) : Tag :=
  match a with
  | .tag t => t
  | .spelling => Tag.ofPlain text
  | .nothing => if plain then Tag.ofPlain text else .str

/-- The tag of a collection. -/
def Asked.collection (a : Asked) (usual : Tag) : Tag :=
  match a with
  | .tag t => t
  | _ => usual

/-! ## Content -/

/-- Where a node stands: which kinds of block may begin there. -/
inductive Place where
  /-- Between brackets. -/
  | flow
  /-- In a block. -/
  | block
  /-- At an entry of a block, where items need not be indented. -/
  | entry
  deriving DecidableEq

/-- Whether one of the given tokens is next, or none at all. -/
def nextIs (stops : List Token) : List Token → Bool
  | [] => true
  | t :: _ => stops.contains t

/-- That fewer tokens are left than before. -/
def fewer (after before : List Token) : Except Fault (PLift (after.length < before.length)) :=
  if h : after.length < before.length then .ok ⟨h⟩ else .error .malformed

mutual

/-- Reads a node. -/
def node (handles : Handles) (place : Place) (ts : List Token) (anchors : Anchors) :
    Except Fault (Progress Node) :=
  match ts with
  | .recall name :: rest => do
    let n ← anchors.resolve name
    return (n, rest, anchors)
  | ts => do
    let p := (properties ts).1
    let want ← asked handles p.tag
    require (p.anchor.all fun a => !(anchors.any (·.1 == a)))
    have := length_properties_le ts
    content handles place p want (properties ts).2 anchors
termination_by 6 * ts.length + 2

/-- Reads the content of a node after its properties, which may be all there is. -/
def content (handles : Handles) (place : Place) (p : Properties) (want : Asked)
    (ts : List Token) (anchors : Anchors) : Except Fault (Progress Node) :=
  let opened := anchors.put p.anchor none
  let finish (n : Node) (rest : List Token) (anchors : Anchors) : Except Fault (Progress Node) :=
    .ok (n, rest, anchors.put p.anchor (some n))
  let bare : Except Fault (Progress Node) := do
    require (p.anchor.isSome || p.tag.isSome)
    finish (.scalar (want.scalar "" true) "") ts anchors
  match ts with
  | .scalar text plain :: rest => finish (.scalar (want.scalar text plain) text) rest anchors
  | .listOpen :: rest => do
    let (items, rest, anchors) ← flowItems handles true rest opened
    finish (.list (want.collection .list) items) rest anchors
  | .mapOpen :: rest => do
    let (entries, rest, anchors) ← flowEntries handles true rest opened
    finish (.map (want.collection .map) entries) rest anchors
  | .itemsStart :: rest =>
    if place = .flow then bare
    else do
      let (items, rest, anchors) ← blockItems handles rest opened
      finish (.list (want.collection .list) items) rest anchors
  | .entriesStart :: rest =>
    if place = .flow then bare
    else do
      let (entries, rest, anchors) ← blockEntries handles rest opened
      finish (.map (want.collection .map) entries) rest anchors
  | .item :: rest =>
    if place = .entry then do
      let (items, rest, anchors) ← looseItems handles (.item :: rest) opened
      finish (.list (want.collection .list) items) rest anchors
    else bare
  | _ => bare
termination_by 6 * ts.length + 1

/-- A node, or nothing when one of the given tokens is next. -/
def part (handles : Handles) (stops : List Token) (place : Place) (ts : List Token)
    (anchors : Anchors) : Except Fault (Progress Node) :=
  if nextIs stops ts then .ok (nothing, ts, anchors)
  else node handles place ts anchors
termination_by 6 * ts.length + 3

/-- The items of a block, up to its end. -/
def blockItems (handles : Handles) (ts : List Token) (anchors : Anchors) :
    Except Fault (Progress (List Node)) :=
  match ts with
  | .blockEnd :: rest => .ok ([], rest, anchors)
  | .item :: rest => do
    let (n, after, anchors) ← part handles [.item, .blockEnd] .block rest anchors
    let ⟨_⟩ ← fewer after (.item :: rest)
    let (items, rest, anchors) ← blockItems handles after anchors
    return (n :: items, rest, anchors)
  | _ => .error .malformed
termination_by 6 * ts.length + 0
decreasing_by
  all_goals
    try simp only [List.length_cons] at *
    omega

/-- The items that stand at the column of the entry they belong to. -/
def looseItems (handles : Handles) (ts : List Token) (anchors : Anchors) :
    Except Fault (Progress (List Node)) :=
  match ts with
  | .item :: rest => do
    let (n, after, anchors) ← part handles [.item, .key, .value, .blockEnd] .block rest anchors
    let ⟨_⟩ ← fewer after (.item :: rest)
    let (items, rest, anchors) ← looseItems handles after anchors
    return (n :: items, rest, anchors)
  | ts => .ok ([], ts, anchors)
termination_by 6 * ts.length + 0
decreasing_by
  all_goals
    try simp only [List.length_cons] at *
    omega

/-- The entries of a block, up to its end. -/
def blockEntries (handles : Handles) (ts : List Token) (anchors : Anchors) :
    Except Fault (Progress (List (Node × Node))) :=
  match ts with
  | .blockEnd :: rest => .ok ([], rest, anchors)
  | .key :: rest => do
    let (k, after, anchors) ← part handles [.key, .value, .blockEnd] .entry rest anchors
    let ⟨_⟩ ← fewer after (.key :: rest)
    let (v, after, anchors) ← optionalValue handles [.key, .value, .blockEnd] .entry after anchors
    let ⟨_⟩ ← fewer after (.key :: rest)
    let (entries, rest, anchors) ← blockEntries handles after anchors
    return ((k, v) :: entries, rest, anchors)
  | _ => .error .malformed
termination_by 6 * ts.length + 0
decreasing_by
  all_goals
    try simp only [List.length_cons] at *
    omega

/-- The value after a key; there is none unless its colon is next. -/
def optionalValue (handles : Handles) (stops : List Token) (place : Place) (ts : List Token)
    (anchors : Anchors) : Except Fault (Progress Node) :=
  match ts with
  | .value :: rest => part handles stops place rest anchors
  | ts => .ok (nothing, ts, anchors)
termination_by 6 * ts.length + 0
decreasing_by
  all_goals
    try simp only [List.length_cons] at *
    omega

/-- The items between brackets, up to the closing one; a comma goes before all but the first. -/
def flowItems (handles : Handles) (first : Bool) (ts : List Token) (anchors : Anchors) :
    Except Fault (Progress (List Node)) :=
  match ts with
  | .listClose :: rest => .ok ([], rest, anchors)
  | .comma :: .listClose :: rest =>
    if first then .error .malformed else .ok ([], rest, anchors)
  | .comma :: rest => if first then .error .malformed else flowItem handles rest anchors
  | ts => if first then flowItem handles ts anchors else .error .malformed
termination_by 6 * ts.length + 5
decreasing_by
  all_goals
    try simp only [List.length_cons] at *
    omega

/-- An item between brackets, which may be a mapping of one entry, and the items after it. -/
def flowItem (handles : Handles) (ts : List Token) (anchors : Anchors) :
    Except Fault (Progress (List Node)) :=
  match ts with
  | .key :: rest => do
    let (k, after, anchors) ← part handles [.value, .comma, .listClose] .flow rest anchors
    let ⟨_⟩ ← fewer after (.key :: rest)
    let (v, after, anchors) ← optionalValue handles [.comma, .listClose] .flow after anchors
    let ⟨_⟩ ← fewer after (.key :: rest)
    let (items, rest, anchors) ← flowItems handles false after anchors
    return (.map .map [(k, v)] :: items, rest, anchors)
  | ts => do
    let (n, after, anchors) ← node handles .flow ts anchors
    let ⟨_⟩ ← fewer after ts
    let (items, rest, anchors) ← flowItems handles false after anchors
    return (n :: items, rest, anchors)
termination_by 6 * ts.length + 4
decreasing_by
  all_goals
    try simp only [List.length_cons] at *
    omega

/-- The entries between braces, up to the closing one; a comma goes before all but the first. -/
def flowEntries (handles : Handles) (first : Bool) (ts : List Token) (anchors : Anchors) :
    Except Fault (Progress (List (Node × Node))) :=
  match ts with
  | .mapClose :: rest => .ok ([], rest, anchors)
  | .comma :: .mapClose :: rest =>
    if first then .error .malformed else .ok ([], rest, anchors)
  | .comma :: rest => if first then .error .malformed else flowEntry handles rest anchors
  | ts => if first then flowEntry handles ts anchors else .error .malformed
termination_by 6 * ts.length + 5
decreasing_by
  all_goals
    try simp only [List.length_cons] at *
    omega

/-- An entry between braces, which may be a key alone, and the entries after it. -/
def flowEntry (handles : Handles) (ts : List Token) (anchors : Anchors) :
    Except Fault (Progress (List (Node × Node))) :=
  match ts with
  | .key :: rest => do
    let (k, after, anchors) ← part handles [.value, .comma, .mapClose] .flow rest anchors
    let ⟨_⟩ ← fewer after (.key :: rest)
    let (v, after, anchors) ← optionalValue handles [.comma, .mapClose] .flow after anchors
    let ⟨_⟩ ← fewer after (.key :: rest)
    let (entries, rest, anchors) ← flowEntries handles false after anchors
    return ((k, v) :: entries, rest, anchors)
  | ts => do
    let (k, after, anchors) ← node handles .flow ts anchors
    let ⟨_⟩ ← fewer after ts
    let (entries, rest, anchors) ← flowEntries handles false after anchors
    return ((k, nothing) :: entries, rest, anchors)
termination_by 6 * ts.length + 4
decreasing_by
  all_goals
    try simp only [List.length_cons] at *
    omega

end

/-! ## Documents -/

/-- The handles that need no directive. -/
def usualHandles : Handles := [("!", "!"), ("!!", Tag.namespaceLead)]

/-- The directives in front of a document, and the tokens after them. -/
def directives (versioned : Bool) (handles : Handles) : List Token →
    Except Fault (Handles × List Token)
  | .directive (.version major) :: rest =>
    if versioned || major != 1 then .error .malformed else directives true handles rest
  | .directive (.handle name lead) :: rest =>
    if handles.any (·.1 == name) then .error .malformed
    else directives versioned ((name, lead) :: handles) rest
  | .directive .other :: rest => directives versioned handles rest
  | rest => .ok (handles ++ usualHandles, rest)

/-- Whether a token stands apart from all documents. -/
def isApart : Token → Bool
  | .directive _ => true
  | .documentStart => true
  | .documentEnd => true
  | _ => false

/-- The node of a document, from its first token on. -/
def document (ts : List Token) : Except Fault (Progress Node) :=
  match ts with
  | .documentEnd :: _ => .error .malformed
  | t :: rest =>
    if isApart t then do
      let (handles, rest) ← directives false [] (t :: rest)
      match rest with
      | .documentStart :: rest =>
        match rest with
        | [] => return (nothing, [], [])
        | u :: _ => if isApart u then return (nothing, rest, []) else node handles .block rest []
      | _ => .error .malformed
    else node usualHandles .block ts []
  | [] => .ok (nothing, [], [])

/-- The one document that a list of tokens holds. -/
def ofTokens? (ts : List Token) : Except Fault Node := do
  let (n, rest, _) ← document ts
  let rest := rest.dropWhile (· == .documentEnd)
  require rest.isEmpty
  return n

/-- The one document that a text holds. -/
def ofText? (s : String) : Except Fault Node := do
  ofTokens? (← tokens s.toList)

end Node
end Raml.Yaml
