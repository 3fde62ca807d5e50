import Raml.Text.Piece

/-!
# Paths

A path as it is written: the slashes that it begins with, and the names between the others.
Empty names and single dots say nothing and are left out on reading, so that `a//b/./c` and
`a/b/c` are one path. `normal` also takes out each name that two dots lead back from.
-/

namespace Raml

/-- A path: `root` is empty, one slash, or exactly two. -/
structure Path where
  root : String
  names : List String
  deriving DecidableEq, Repr, Inhabited

namespace Path

/-- The slashes that a text begins with; more than two count as one. -/
def rootOf (cs : List Char) : String :=
  match (cs.takeWhile (· == '/')).length with
  | 0 => ""
  | 2 => "//"
  | _ => "/"

/-- Whether a name says anything. -/
def isName (name : String) : Bool := !name.isEmpty && name != "."

/-- Reads a path. -/
def ofString (s : String) : Path :=
  ⟨rootOf s.toList, (Text.pieces '/' s).filter isName⟩

/-- The text of a path; that of the empty one is a single dot. -/
def toString (p : Path) : String :=
  let s := p.root ++ String.intercalate "/" p.names
  if s.isEmpty then "." else s

/-- Whether the path says where it starts. -/
def isAbsolute (p : Path) : Bool := !p.root.isEmpty

/-- The second path, seen from the first. -/
def join (p q : Path) : Path := if q.isAbsolute then q else ⟨p.root, p.names ++ q.names⟩

/-- Goes on from `taken`, the names so far, the last one first. -/
def climb (absolute : Bool) (taken : List String) : List String → List String
  | [] => taken.reverse
  | name :: rest =>
    if name = ".." then
      match taken with
      | [] => climb absolute (if absolute then [] else [".."]) rest
      | ".." :: _ => climb absolute (".." :: taken) rest
      | _ :: above => climb absolute above rest
    else climb absolute (name :: taken) rest

/-- The path with no name that two dots lead back from. -/
def normal (p : Path) : Path := ⟨p.root, climb p.isAbsolute [] p.names⟩

/-- The path without its last name. -/
def parent (p : Path) : Path := ⟨p.root, p.names.dropLast⟩

/-- The last name, or the empty text when there is none. -/
def name (p : Path) : String := p.names.getLast?.getD ""

end Path
end Raml
