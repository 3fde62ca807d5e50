import Raml.Document.Header
import Raml.Load.Inclusion
import Raml.Yaml.Document

/-!
# Reading a document

A document is read in four steps: its text, its first line, the inclusions in what follows, and
the node that the whole stands for.
-/

namespace Raml

/-- A document as it was read: the version it names, and its entries. -/
structure Draft where
  version : String
  entries : List (Value × Value)
  deriving Inhabited

namespace Access

/-- Reads a document from its text; `source` is its name in messages. -/
def loadText (a : Access) (chain : List String) (base source text : String) : Load Draft := do
  let (version, body) ← ofExcept (Header.read source text)
  let expanded ← a.expand chain base body
  return ⟨version, ← ofExcept (Yaml.decode expanded source)⟩

/-- Reads the document at a location. -/
def loadDocument (a : Access) (chain : List String) (location : String) : Load Draft := do
  let text ← a.text location
  let folder ← ofExcept (Location.folder location)
  a.loadText (chain ++ [location]) folder location text

end Access
end Raml
