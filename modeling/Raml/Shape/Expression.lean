import Raml.Shape.Basic
import Raml.Text.Piece

/-!
# Type expressions

The text of a type: `Person`, `Person[]`, `(A | B)[]`, `A | B`. A bar counts only outside all
parentheses, an array suffix binds more tightly than a bar, and parentheses around the whole
expression mean nothing. Parentheses need not match; they only move the depth up and down.

`ofChars` reads an expression. `hasUnion` and `members` both scan for bars at depth nought: the
first asks whether there is one, the second cuts there.
-/

namespace Raml.Shape.Expression

/-- The depth after one more character. -/
def deeper (depth : Int) (c : Char) : Int :=
  if c = '(' then depth + 1 else if c = ')' then depth - 1 else depth

/-- Whether `c` is a bar at depth nought. -/
def isBar (depth : Int) (c : Char) : Bool := c == '|' && depth == 0

/-- Whether a bar stands at depth nought, starting at the given depth. -/
def hasUnionFrom (depth : Int) : List Char → Bool
  | [] => false
  | c :: cs => isBar depth c || hasUnionFrom (deeper depth c) cs

/-- Whether an expression is a union. -/
def hasUnion (cs : List Char) : Bool := hasUnionFrom 0 cs

/-- The stretches between bars at depth nought, starting at the given depth. -/
def stretchesFrom (depth : Int) : List Char → List (List Char)
  | [] => [[]]
  | c :: cs =>
    if isBar depth c then [] :: stretchesFrom depth cs
    else match stretchesFrom (deeper depth c) cs with
      | [] => [[c]]
      | p :: ps => (c :: p) :: ps

/-- The members of a union, trimmed. -/
def memberChars (cs : List Char) : List (List Char) :=
  (stretchesFrom 0 cs).map (Text.dropAround Text.isBlank)

/-- The members of a union; an expression that is none has itself as its one member. -/
def members (s : String) : List String := (memberChars s.toList).map String.ofList

/-- Whether the depth comes back to nought only at the last character. -/
def closesLast (depth : Int) : List Char → Bool
  | [] => true
  | c :: cs =>
    if c = ')' && depth - 1 == 0 && !cs.isEmpty then false
    else closesLast (deeper depth c) cs

/-- Whether one pair of parentheses holds the whole expression. -/
def isWrapped (cs : List Char) : Bool :=
  cs.head? == some '(' && cs.getLast? == some ')' && closesLast 0 cs

/-- Whether the expression ends in the array suffix. -/
def hasSuffix (cs : List Char) : Bool := ['[', ']'].isSuffixOf cs

theorem length_trim_le (cs : List Char) :
    (Text.dropAround Text.isBlank cs).length ≤ cs.length := by
  have h1 := (List.dropWhile_sublist Text.isBlank (l := cs)).length_le
  have h2 := (List.dropWhile_sublist Text.isBlank
    (l := (Text.dropStart Text.isBlank cs).reverse)).length_le
  simp only [Text.dropAround, Text.dropEnd, Text.dropStart, List.length_reverse] at *
  omega

theorem two_le_length_of_hasSuffix {cs : List Char} (h : hasSuffix cs = true) :
    2 ≤ cs.length := by
  have := (List.isSuffixOf_iff_suffix.1 h).length_le
  simpa using this

theorem pos_length_of_isWrapped {cs : List Char} (h : isWrapped cs = true) : 0 < cs.length := by
  cases cs with
  | nil => simp [isWrapped] at h
  | cons c cs => simp

/-- The shape that an expression denotes. -/
def ofChars (cs : List Char) : Shape :=
  if isSchema cs then .scalar (String.ofList cs)
  else
    let expr := Text.dropAround Text.isBlank cs
    if h : hasSuffix expr = true ∧ hasUnion expr = false then
      .array (ofChars (expr.take (expr.length - 2)))
    else if _wrapped : isWrapped expr = true then ofChars (expr.tail.dropLast)
    else if builtins.contains (String.ofList expr) then .scalar (String.ofList expr)
    else .reference (String.ofList expr)
termination_by cs.length
decreasing_by
  · have h1 := length_trim_le cs
    have h2 : 2 ≤ (Text.dropAround Text.isBlank cs).length := two_le_length_of_hasSuffix h.1
    simp only [List.length_take]
    omega
  · have h1 := length_trim_le cs
    have h2 : 0 < (Text.dropAround Text.isBlank cs).length := pos_length_of_isWrapped _wrapped
    simp only [List.length_dropLast, List.length_tail]
    omega

end Expression

/-- The shape that the text of a type denotes. -/
def ofText (s : String) : Shape := Expression.ofChars s.toList

/-- Whether a shape is a union of types. -/
def isUnion : Shape → Bool
  | .reference name => Expression.hasUnion name.toList
  | _ => false

/-- The members of a reference: those of the union, or the reference itself. -/
def members : Shape → List String
  | .reference name => Expression.members name
  | _ => []

end Raml.Shape
