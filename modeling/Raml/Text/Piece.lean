import Raml.Text.Blank

/-!
# Pieces of a text

Cutting a text at a character, at the first place where another text stands, and into
lines. Nothing is lost by a cut: `join_split` puts the pieces of `split` together again, and
`cut?_eq_some` does the same for the two sides of `cut?`.
-/

namespace Raml.Text

/-! ## At a character -/

/-- The stretches between the places where `sep` stands; there is always at least one. -/
def split (sep : Char) : List Char → List (List Char)
  | [] => [[]]
  | c :: cs =>
    if c = sep then [] :: split sep cs
    else match split sep cs with
      | [] => [[c]]
      | p :: ps => (c :: p) :: ps

/-- The pieces one after another with `sep` between neighbours. -/
def join (sep : List Char) : List (List Char) → List Char
  | [] => []
  | [p] => p
  | p :: q :: ps => p ++ sep ++ join sep (q :: ps)

theorem split_ne_nil (sep : Char) (cs : List Char) : split sep cs ≠ [] := by
  induction cs with
  | nil => simp [split]
  | cons c cs ih =>
    unfold split
    split
    · simp
    · split <;> simp

theorem join_split (sep : Char) (cs : List Char) : join [sep] (split sep cs) = cs := by
  induction cs with
  | nil => rfl
  | cons c cs ih =>
    unfold split
    split
    · rename_i h
      cases hs : split sep cs with
      | nil => exact absurd hs (split_ne_nil sep cs)
      | cons p ps => rw [hs] at ih; simp [join, ih, h]
    · cases hs : split sep cs with
      | nil => exact absurd hs (split_ne_nil sep cs)
      | cons p ps =>
        rw [hs] at ih
        cases ps with
        | nil => simpa [join] using ih
        | cons q qs => simpa [join] using ih

/-- `split` on texts. -/
def pieces (sep : Char) (s : String) : List String :=
  (split sep s.toList).map String.ofList

/-! ## At a text -/

/-- What stands before and after the first place where `sub` stands. -/
def cut? (sub : List Char) : List Char → Option (List Char × List Char)
  | [] => if sub.isEmpty then some ([], []) else none
  | c :: cs =>
    if sub.isPrefixOf (c :: cs) then some ([], (c :: cs).drop sub.length)
    else (cut? sub cs).map fun (before, after) => (c :: before, after)

theorem cut?_eq_some {sub cs before after : List Char} (h : cut? sub cs = some (before, after)) :
    cs = before ++ sub ++ after := by
  induction cs generalizing before after with
  | nil =>
    unfold cut? at h
    split at h
    · simp_all
    · simp at h
  | cons c cs ih =>
    unfold cut? at h
    split at h
    · rename_i hp
      obtain ⟨t, ht⟩ := List.isPrefixOf_iff_prefix.1 hp
      simp only [Option.some.injEq, Prod.mk.injEq] at h
      obtain ⟨rfl, rfl⟩ := h
      simp [← ht]
    · cases hc : cut? sub cs with
      | none => simp [hc] at h
      | some pair =>
        obtain ⟨b, a⟩ := pair
        simp only [hc, Option.map_some, Option.some.injEq, Prod.mk.injEq] at h
        obtain ⟨rfl, rfl⟩ := h
        simp [ih hc]

theorem isSome_cut?_iff {sub cs : List Char} : (cut? sub cs).isSome = true ↔ sub <:+: cs := by
  induction cs with
  | nil =>
    unfold cut?
    split <;> simp_all
  | cons c cs ih =>
    unfold cut?
    rw [List.infix_cons_iff, ← ih, ← List.isPrefixOf_iff_prefix]
    split <;> simp_all

/-- Whether `sub` stands somewhere in the text. -/
def contains (sub : String) (s : String) : Bool := (cut? sub.toList s.toList).isSome

theorem contains_iff {sub s : String} : contains sub s = true ↔ sub.toList <:+: s.toList :=
  isSome_cut?_iff

/-- Whether the text begins with `lead`. -/
def startsWith (lead : String) (s : String) : Bool := lead.toList.isPrefixOf s.toList

/-- Whether the text ends with `tail`. -/
def endsWith (tail : String) (s : String) : Bool := tail.toList.isSuffixOf s.toList

/-- What is left when `n` characters are taken from the end. -/
def dropLast (n : Nat) (s : String) : String :=
  String.ofList (s.toList.take (s.toList.length - n))

/-- What is left when `n` characters are taken from the start. -/
def dropFirst (n : Nat) (s : String) : String := String.ofList (s.toList.drop n)

/-! ## Into lines -/

/-- The text with each carriage return, alone or before a newline, turned into a newline. -/
def unixBreaks : List Char → List Char
  | '\r' :: '\n' :: cs => '\n' :: unixBreaks cs
  | '\r' :: cs => '\n' :: unixBreaks cs
  | c :: cs => c :: unixBreaks cs
  | [] => []

/--
The lines of a document. Newlines and carriage returns end a line and nothing else does; the end
of the last line is not the start of another.
-/
def lines (s : String) : List String :=
  let ls := split '\n' (unixBreaks s.toList)
  (if ls.getLast? = some [] then ls.dropLast else ls).map String.ofList

/-- The lines of a piece of prose, which ends lines at any `isLineBreak`. -/
def proseLines (s : String) : List String :=
  (go [] s.toList).map String.ofList
where
  /-- `line` holds the characters of the line so far, last first. -/
  go (line : List Char) : List Char → List (List Char)
    | [] => if line.isEmpty then [] else [line.reverse]
    | '\r' :: '\n' :: cs => line.reverse :: go [] cs
    | c :: cs => if isLineBreak c then line.reverse :: go [] cs else go (c :: line) cs

end Raml.Text
