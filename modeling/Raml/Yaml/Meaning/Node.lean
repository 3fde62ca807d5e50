import Raml.Yaml.Meaning.Scalar
import Raml.Yaml.Node

/-!
# What nodes stand for

The value of a node. A mapping may merge others in: their entries come first, and its own replace
those under the same key. A key has to be a scalar.

When several things are wrong, those nearer to the root are reported first, and of things equally
near the one that is written first; merging comes before everything else in a mapping. So a fault
carries its distance, and `both` keeps the nearer of two. That a collection would contain itself is
seen only in the end, when nothing else is wrong.
-/

namespace Raml.Yaml.Meaning

/-- A value, or the nearest fault with its distance. -/
abbrev Made (α : Type) := Except (Nat × Fault) α

/-- The distance of a fault in merging, and the one of any other fault at a node. -/
def Made.fault {α : Type} (f : Fault) : Made α := .error (1, f)

/-- Whether the first fault is reported before the second one. -/
def isSooner (f e : Nat × Fault) : Bool :=
  if e.2 = .endless then f.2 ≠ .endless else f.1 < e.1 && f.2 ≠ .endless

/-- Both values, or the fault that is reported first. -/
def both {α β : Type} : Made α → Made β → Made (α × β)
  | .ok a, .ok b => .ok (a, b)
  | .error e, .ok _ => .error e
  | .ok _, .error f => .error f
  | .error e, .error f => .error (if isSooner f e then f else e)

/-- The same a level further from the root, where merging is over. -/
def Made.deeper {α : Type} : Made α → Made α
  | .ok a => .ok a
  | .error (n, f) => .error (max n 1 + 1, f)

/-- A list with one more item in front. -/
def Made.cons {α : Type} (a : Made α) (as : Made (List α)) : Made (List α) :=
  (both a as).map fun (x, xs) => x :: xs

/-- A key that is no scalar: a fault inside it, or that it is none. -/
def Made.noKey {α β : Type} : Made α → Made β
  | .error (_, .endless) => Made.fault .malformed
  | .error (_, f) => Made.fault f
  | .ok _ => Made.fault .malformed

/-- Two lists, one after the other. -/
def Made.append {α : Type} (as bs : Made (List α)) : Made (List α) :=
  (both as bs).map fun (xs, ys) => xs ++ ys

/-- Whether things with this tag are filled in only after they are made. -/
def isCollection : Tag → Bool
  | .list => true
  | .map => true
  | .set => true
  | .omap => true
  | .pairs => true
  | _ => false

mutual

/-- The text of a node that should be a scalar; a mapping may have an entry for that. -/
def scalarText : Node → Option String
  | .scalar _ text => some text
  | .list _ _ => none
  | .map _ entries => entryText entries
  | .around => none

/-- The text under the first key that holds the value of the mapping. -/
def entryText : List (Node × Node) → Option String
  | [] => none
  | (k, v) :: rest => if k.tag = .value then scalarText v else entryText rest

end

/-- A value by the tag of a scalar, from a node that need not be one. -/
def ofScalarText (tag : Tag) (text : Option String) : Made Value :=
  match text with
  | none => Made.fault .malformed
  | some t => (scalar tag t).mapError (1, ·)

/-- The entries of a mapping: those merged in and its own. -/
abbrev Entries := Made (List (Value × Value)) × Made (List (Value × Value))

/-- All entries, those merged in first. -/
def Entries.all (e : Entries) : Made (List (Value × Value)) := Made.append e.1 e.2

mutual

/-- What a node stands for. -/
def value : Node → Made Value
  | .scalar tag text =>
    if isCollection tag then (Made.fault .malformed).deeper
    else ofScalarText tag (some text)
  | .list tag items =>
    match tag with
    | .list => (values items).deeper.map .list
    | .omap => (pairs items).deeper.map .list
    | .pairs => (pairs items).deeper.map .list
    | tag => if isCollection tag then (Made.fault .malformed).deeper else Made.fault .malformed
  | .map tag es =>
    match tag with
    | .map => (entries es).all.deeper.map fun es => .map (Value.mapOf es)
    | .set => (entries es).all.deeper.map fun es => .set ((Value.mapOf es).map Prod.fst)
    | tag =>
      if isCollection tag then (Made.fault .malformed).deeper
      else ofScalarText tag (entryText es)
  | .around => Made.fault .endless

/-- What each item stands for. -/
def values : List Node → Made (List Value)
  | [] => .ok []
  | n :: rest => Made.cons (value n) (values rest)

/-- The entries of a mapping. -/
def entries : List (Node × Node) → Entries
  | [] => (.ok [], .ok [])
  | (k, v) :: rest =>
    let others := entries rest
    if k.tag = .merge then (Made.append (merged v) others.1, others.2)
    else
      let key : Made Value :=
        if isCollection k.tag then (value k).noKey
        else if k.tag = .value then ofScalarText .str (scalarText k)
        else value k
      (others.1, Made.cons (both key (value v)) others.2)

/-- The entries of a node that is merged in: a mapping, or a list of them. -/
def merged : Node → Made (List (Value × Value))
  | .map _ es => (entries es).all
  | .list _ items => mergedItems items
  | .scalar _ _ => .error (0, .malformed)
  | .around => Made.fault .endless

/-- The entries of several mappings; those of an earlier one count more, so they come last. -/
def mergedItems : List Node → Made (List (Value × Value))
  | [] => .ok []
  | .map _ es :: rest => Made.append (mergedItems rest) (entries es).all
  | .around :: rest => Made.append (mergedItems rest) (Made.fault .endless)
  | _ :: _ => .error (0, .malformed)

/-- The entries of mappings with one entry each. -/
def pairs : List Node → Made (List Value)
  | [] => .ok []
  | .map _ [(k, v)] :: rest =>
    Made.cons ((both (value k) (value v)).map fun (a, b) => .pair a b) (pairs rest)
  | _ :: rest => Made.cons (Made.fault .malformed) (pairs rest)

end

end Raml.Yaml.Meaning
