import Raml.Location.Host
import Raml.Text.Unicode.Case

/-!
# Addresses

An address of the web, taken apart at its delimiters, and how a reference in a document is
resolved against the address of the folder that holds it: what the reference leaves out is taken
from there, and single and double dots in its path are followed.
-/

namespace Raml

/-- An address. A part that is absent is empty. -/
structure Url where
  scheme : String
  authority : String
  path : String
  parameters : String
  query : String
  fragment : String
  deriving DecidableEq, Repr, Inhabited

namespace Url

/-! ## Taking apart -/

/-- Control characters and the blank, which are dropped from the start of an address. -/
def isControl (c : Char) : Bool := c.toNat ≤ 0x20

/-- Tabs and line breaks, which are dropped everywhere. -/
def isBreak (c : Char) : Bool := c == '\t' || c == '\r' || c == '\n'

/-- Whether a character may stand in the name of a scheme. -/
def isSchemeChar (c : Char) : Bool := c.isAlphanum || c == '+' || c == '-' || c == '.'

/-- What stands before and after the first `sep`; nothing after it when there is none. -/
def cutAt (sep : Char) (cs : List Char) : List Char × List Char :=
  let before := cs.takeWhile (· != sep)
  (before, (cs.drop before.length).drop 1)

/-- The scheme at the start of an address, in lower case, and what follows its colon. -/
def scheme? (cs : List Char) : Option (List Char × List Char) :=
  let (name, rest) := cutAt ':' cs
  if cs.contains ':' && (name.head?.map Char.isAlpha).getD false && name.all isSchemeChar then
    some (name.map Char.toLower, rest)
  else none

/-- Whether a character ends the authority. -/
def endsAuthority (c : Char) : Bool := c == '/' || c == '?' || c == '#'

/-- The last segment of a path loses its parameters. -/
def cutParameters (path : List Char) : List Char × List Char :=
  let last := (path.reverse.takeWhile (· != '/')).reverse
  let (name, parameters) := cutAt ';' last
  (path.take (path.length - last.length) ++ name, parameters)

/--
Takes an address apart; `fallback` is the scheme of one that names none. An address whose host
cannot be one is refused.
-/
def split? (fallback : String) (s : String) : Option Url :=
  let cs := (Text.dropStart isControl s.toList).filter fun c => !isBreak c
  let (scheme, cs) := (scheme? cs).getD (fallback.toList, cs)
  let (authority, cs) := match cs with
    | '/' :: '/' :: rest =>
      let authority := rest.takeWhile fun c => !endsAuthority c
      (authority, rest.drop authority.length)
    | cs => ([], cs)
  let (cs, fragment) := cutAt '#' cs
  let (path, query) := cutAt '?' cs
  if Host.isValid authority then
    some ⟨String.ofList scheme, String.ofList authority, String.ofList path, "",
      String.ofList query, String.ofList fragment⟩
  else none

/-- Takes an address apart, the parameters of its last segment too. -/
def parse? (fallback : String) (s : String) : Option Url :=
  (split? fallback s).map fun u =>
    let (path, parameters) := cutParameters u.path.toList
    { u with path := String.ofList path, parameters := String.ofList parameters }

/-! ## Putting together -/

/-- A part with the delimiter before it, or nothing when the part is empty. -/
def part (delimiter text : String) : String := if text.isEmpty then "" else delimiter ++ text

/-- The text of an address. -/
def toString (u : Url) : String :=
  let path := u.path ++ part ";" u.parameters
  let path := if path.isEmpty || Text.startsWith "/" path then path else "/" ++ path
  u.scheme ++ "://" ++ u.authority ++ path ++ part "?" u.query ++ part "#" u.fragment

/-! ## Resolving -/

/-- Follows the dots in the segments of a path; `taken` holds those so far, the last one first. -/
def follow (taken : List String) : List String → List String
  | [] => taken.reverse
  | ".." :: rest => follow taken.tail rest
  | "." :: rest => follow taken rest
  | segment :: rest => follow (segment :: taken) rest

/-- The segments without the empty ones, those at both ends apart. -/
def closeGaps : List String → List String
  | [] => []
  | first :: rest => first :: (rest.dropLast.filter (!·.isEmpty) ++ rest.getLast?.toList)

/-- The segments of a path seen from the folder of another. -/
def segments (base path : String) : List String :=
  if Text.startsWith "/" path then Text.pieces '/' path
  else
    let folder := Text.pieces '/' base
    let folder := if folder.getLast? == some "" then folder else folder.dropLast
    closeGaps (folder ++ Text.pieces '/' path)

/-- The path that a reference's path leads to from that of another address. -/
def resolvePath (base path : String) : String :=
  let steps := segments base path
  let ending := if steps.getLast? == some "." || steps.getLast? == some ".." then [""] else []
  let resolved := String.intercalate "/" (follow [] steps ++ ending)
  if resolved.isEmpty then "/" else resolved

/-- Resolves a reference, taken apart with the scheme of the base as its fallback. -/
def resolve (base reference : Url) : Url :=
  if !reference.authority.isEmpty then reference
  else
    let found := { reference with authority := base.authority }
    if reference.path.isEmpty && reference.parameters.isEmpty then
      { found with
        path := base.path
        parameters := base.parameters
        query := if reference.query.isEmpty then base.query else reference.query }
    else { found with path := resolvePath base.path reference.path }

/-- The text of a reference resolved against an address of the web. -/
def join? (base reference : String) : Option String :=
  if reference.isEmpty then some base
  else do
    let b ← parse? "" base
    let r ← parse? b.scheme reference
    return if r.scheme = b.scheme then (resolve b r).toString else reference

/-! ## Folders -/

/-- What stands up to the last slash of a path, and after it. -/
def cutLast (path : String) : String × String :=
  let last := (path.toList.reverse.takeWhile (· != '/')).reverse
  (String.ofList (path.toList.take (path.toList.length - last.length)), String.ofList last)

/-- A folder as one that other paths can go on from: with exactly one slash at its end. -/
def folderPath (head : String) : String :=
  if head.toList.all (· == '/') then (if head.isEmpty then "/" else head)
  else String.ofList (Text.dropEnd (· == '/') head.toList) ++ "/"

/-- The address of the folder of a document, and the name of the document in it. -/
def folder? (s : String) : Option (String × String) :=
  (split? "" s).map fun u =>
    let (head, name) := cutLast u.path
    (u.scheme ++ "://" ++ u.authority ++ folderPath head, name)

end Url
end Raml
