import Raml.Error
import Raml.Location.Path
import Raml.Location.Url

/-!
# Locations

A location is the path of a file or the address of a document on the web. A reference in a
document is resolved against the folder of the document: `join` gives the location that it means,
and `split?` the folder from which references in the document found there go on.
-/

namespace Raml.Location

/-- Whether a location is an address of the web. -/
def isUrl (location : String) : Bool :=
  Text.startsWith "http://" location || Text.startsWith "https://" location

/-- The base as a folder: an address that does not end in a slash gets one. -/
def asFolder (base : String) : String :=
  if Text.endsWith "/" base then base else base ++ "/"

/-- The location that a reference means in a document of the folder `base`. -/
def join (base reference : String) : Except Error String :=
  if isUrl reference then .ok reference
  else if isUrl base then
    match Url.join? (asFolder base) reference with
    | some location => .ok location
    | none => .error .location
  else .ok ((Path.ofString base).join (Path.ofString reference)).normal.toString

/-- The folder of a location, and the name of the document in it. -/
def split (location : String) : Except Error (String × String) :=
  if isUrl location then
    match Url.folder? location with
    | some parts => .ok parts
    | none => .error .location
  else
    let p := Path.ofString location
    .ok (p.parent.toString, p.name)

/-- The folder of a location. -/
def folder (location : String) : Except Error String := (split location).map Prod.fst

end Raml.Location
