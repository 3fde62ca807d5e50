import Raml.Text.Unicode.Case
import Raml.Text.Unicode.Word

/-!
# Styles of compound names

A compound name shows where its words meet by capitals, by underscores or by hyphens. All styles
are made from the underscored one. Only letters of ASCII count as capitals here.
-/

namespace Raml.Word

/-- A capital of ASCII. -/
def isCapital (c : Char) : Bool := 'A' ≤ c && c ≤ 'Z'

/-- A small letter of ASCII. -/
def isSmall (c : Char) : Bool := 'a' ≤ c && c ≤ 'z'

/-- An underscore before the last of several capitals when a small letter follows it. -/
def partCapitals : List Char → List Char
  | a :: b :: c :: cs =>
    if isCapital a && isCapital b && isSmall c then a :: '_' :: partCapitals (b :: c :: cs)
    else a :: partCapitals (b :: c :: cs)
  | cs => cs

/-- An underscore between a small letter or digit and a capital. -/
def partWords : List Char → List Char
  | a :: b :: cs =>
    if (isSmall a || Text.Unicode.isDigit a) && isCapital b then a :: '_' :: partWords (b :: cs)
    else a :: partWords (b :: cs)
  | cs => cs

/-- The words of a name in lower case, joined by underscores. -/
def underscoredChars (cs : List Char) : List Char :=
  Text.Unicode.lowerChars
    ((partWords (partCapitals cs)).map fun c => if c = '-' then '_' else c)

/-- Every character after an underscore in upper case and the underscore gone, newlines apart. -/
def raiseWords : List Char → List Char
  | '_' :: c :: cs =>
    if c = '\n' then '_' :: c :: raiseWords cs
    else Text.Unicode.upperChar c ++ raiseWords cs
  | c :: cs => c :: raiseWords cs
  | [] => []

/-- `raiseWords`, and the first character in upper case too, whatever it is. -/
def camelChars : List Char → List Char
  | [] => []
  | c :: cs => if c = '\n' then raiseWords (c :: cs) else Text.Unicode.upperChar c ++ raiseWords cs

/-- The words of a name joined by underscores. -/
def underscored (s : String) : String := String.ofList (underscoredChars s.toList)

/-- The words of a name joined by hyphens. -/
def hyphenated (s : String) : String :=
  String.ofList ((underscoredChars s.toList).map fun c => if c = '_' then '-' else c)

/-- The words of a name run together, each with a capital. -/
def upperCamel (s : String) : String := String.ofList (camelChars (underscoredChars s.toList))

/-- The words of a name run together, each but the first with a capital; there is none if empty. -/
def lowerCamel? (s : String) : Option String :=
  match underscoredChars s.toList with
  | [] => none
  | c :: cs =>
    some (String.ofList (Text.Unicode.lowerChar c ++ (camelChars (c :: cs)).drop 1))

end Raml.Word
