import Raml.Error

/-!
# The first line

Every document begins with a line that names the version of the language, and the kind of
document if it is not an API definition.
-/

namespace Raml.Header

/-- The first line without its line break, and all that follows. -/
def cut (text : String) : String × String :=
  let cs := Text.dropStart (· == '\ufeff') text.toList
  let first := cs.takeWhile (· != '\n')
  (String.ofList (Text.dropEnd (· == '\r') first),
    String.ofList ((cs.drop first.length).drop 1))

/-- The version that a document names, and the document without its first line. -/
def read (source text : String) : Except Error (String × String) :=
  let (first, body) := cut text
  if Text.startsWith versionLead first then .ok (Text.trim (Text.dropFirst 2 first), body)
  else .error (.version source first)

end Raml.Header
