import Raml.Error
import Raml.Yaml.Meaning.Node

/-!
# Documents in YAML

The root of a document is a mapping. A text that holds nothing holds the empty one.
-/

namespace Raml.Yaml

/-- The error for a fault in the text of a document. -/
def errorOf (source : String) : Fault → Error
  | .malformed => .decode source ["YAML error"]
  | fault => .value fault

/-- The error for a text that holds something else than a mapping. -/
def noMapping (source kind : String) : Error :=
  .decode source ["document must be a mapping (got " ++ kind ++ ")"]

/-- The entries of the mapping that a text holds. A list that contains itself is a list. -/
def decode (s source : String) : Except Error (List (Value × Value)) :=
  match Node.ofText? s with
  | .error fault => .error (errorOf source fault)
  | .ok n =>
    match n, Meaning.value n with
    | .list _ _, .error (_, .endless) => .error (noMapping source (Value.list []).kind)
    | _, .error (_, fault) => .error (errorOf source fault)
    | _, .ok .null => .ok []
    | _, .ok (.map es) => .ok es
    | _, .ok v => .error (noMapping source v.kind)

end Raml.Yaml
