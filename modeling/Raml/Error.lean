import Raml.Read.Checked
import Raml.Shape.Written
import Raml.Template.Inflector
import Raml.Yaml.Cursor

/-!
# Errors

Everything that can go wrong between the text of a document and the resolved definition, by cause.
`Error.message` words each of them, and `Error.exitCode?` is the code with which a command that
fails on it ends. A few causes lie outside the language: a command that meets one reports only
that it was unexpected.
-/

namespace Raml

/-- What a reference can name. -/
inductive SymbolKind where
  | resourceType
  | trait
  | securityScheme
  deriving DecidableEq, Repr

/-- The kind in words. -/
def SymbolKind.name : SymbolKind → String
  | .resourceType => "resource type"
  | .trait => "trait"
  | .securityScheme => "security scheme"

/-- Why a file cannot be read. -/
inductive FileFault where
  | missing
  | notDirectory
  | directory
  | nameTooLong
  | loop
  | exists
  | busy
  deriving DecidableEq, Repr

/-- The number and the words of a fault, and the path it is about. -/
def FileFault.message (f : FileFault) (path : String) : String :=
  let words := match f with
    | .missing => "[Errno 2] No such file or directory"
    | .notDirectory => "[Errno 20] Not a directory"
    | .directory => "[Errno 21] Is a directory"
    | .nameTooLong => "[Errno 36] File name too long"
    | .loop => "[Errno 40] Too many levels of symbolic links"
    | .exists => "[Errno 17] File exists"
    | .busy => "[Errno 16] Device or resource busy"
  words ++ ": " ++ Text.Quoted.text path

/-- Why a document cannot be had. -/
inductive FetchFault where
  | status (code : Nat) (location : String)
  | connection (location words : String)
  | file (fault : FileFault) (path : String)
  | encoding (fault : Text.Utf8.Fault)
  deriving DecidableEq, Repr

/-- The reason in words. -/
def FetchFault.message : FetchFault → String
  | .status code location => "HTTP " ++ toString code ++ " fetching " ++ location
  | .connection location words => "Failed to fetch " ++ location ++ ": " ++ words
  | .file fault path => fault.message path
  | .encoding fault => "not valid UTF-8: " ++ fault.message

/-- The start of every document. -/
def versionLead : String := "#%RAML 1.0"

/-- What can go wrong. -/
inductive Error where
  /-- Arguments that make no sense. -/
  | usage (words : String)
  | fetch (reference : String) (fault : FetchFault)
  /-- A first line that does not name the version. -/
  | version (source first : String)
  /-- Problems with the structure of a document, one line each. -/
  | decode (source : String) (lines : List String)
  | unresolved (kind : SymbolKind) (name : String)
  | unknownInflector (name : String)
  | cyclic (chain : List String)
  | config (words : String)
  /-- A shape that turns out wrong once its template is instantiated. -/
  | shape (fault : Shape.Fault)
  /-- A word without the first letter that an inflector needs. -/
  | emptyWord
  /-- A value that its tag does not allow, or that has no text. -/
  | value (fault : Yaml.Fault)
  /-- What is no text where one has to be written: bytes in a document, or a remark whose marks do
  not match. -/
  | encoding
  /-- A file that cannot be written. -/
  | file (fault : FileFault)
  /-- A location that no file or address can have. -/
  | location
  /-- A mapping key that has no text. -/
  | key
  /-- Documents that stand inside one another without end. -/
  | tooDeep
  /-- Facets of a property that cannot be what they say. -/
  | facets (problems : List Problem)
  /-- A setting inside of what is no group of settings. -/
  | noGroup
  /-- No folder that is the home of the user. -/
  | noHome
  deriving DecidableEq, Repr

namespace Error

/-- The error in words; causes outside the language have none. -/
def message? : Error → Option String
  | .usage words => some words
  | .fetch reference fault => some ("Error including " ++ reference ++ ": " ++ fault.message)
  | .version source first =>
    some ("Invalid RAML version header in " ++ source ++ ": " ++
      Text.Quoted.text (if first.isEmpty then "<empty>" else first) ++
      ". Expected a document starting with '" ++ versionLead ++ "'")
  | .decode source lines =>
    some ("Failed to decode " ++ source ++ ":\n" ++
      String.intercalate "\n" (lines.map ("  " ++ ·)))
  | .unresolved kind name => some ("Can't find " ++ kind.name ++ " named: " ++ name)
  | .unknownInflector name => some ("Invalid inflector: " ++ name)
  | .cyclic chain => some ("Cyclic reference: " ++ String.intercalate " -> " chain)
  | .config words => some words
  | _ => none

/-- The code with which a command ends; causes outside the language have none of their own. -/
def exitCode? : Error → Option Nat
  | .usage _ => some 2
  | .fetch _ _ => some 3
  | .version _ _ => some 4
  | .decode _ _ => some 5
  | .unresolved _ _ => some 6
  | .unknownInflector _ => some 7
  | .cyclic _ => some 8
  | .config _ => some 1
  | _ => none

/-- Whether the error is one of the language's own. -/
def isOwn (e : Error) : Bool := e.exitCode?.isSome

/-- The error for a text that could not be instantiated. -/
def ofTemplate : Template.Fault → Error
  | .unknownInflector name => .unknownInflector name
  | .emptyWord => .emptyWord
  | .longNumber => .value .number

/-- The error for problems found in a document. An integer without a text is not one of them: it
ends the reading, and no error of the language tells of it. -/
def ofProblems (source : String) (ps : List Problem) : Error :=
  if ps.any fun p => p.what == .longNumber then .value .number
  else .decode source (ps.map Problem.line)

end Error
end Raml
