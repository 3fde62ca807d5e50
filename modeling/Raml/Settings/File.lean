import Raml.Json.Reader
import Raml.Json.Written
import Raml.Settings.Basic
import Raml.Settings.Folder

/-!
# Settings in files

Settings are kept as JSON. A file that is not there holds the usual settings; what is in a file
must be an object, and for the settings of the user one that can be read as such. Saving puts a
whole new file in the place of the old one.
-/

namespace Raml
namespace Settings

/-- Problems of settings as one text: how many there are, then each with its place. -/
def problemsText (ps : List Problem) : String :=
  let count := toString ps.length ++ " validation error" ++ (if ps.length = 1 then "" else "s")
  let shown (p : Problem) : String := String.intercalate "." p.path ++ "\n  " ++ p.what.message
  String.intercalate "\n" ((count ++ " for GlobalConfig") :: ps.map shown)

/-- The error for a file of settings. -/
def fileError (label : String) (p : Path) (words : String) : Error :=
  .config ("Invalid " ++ label ++ " at " ++ p.toString ++ ": " ++ words)

/-- The settings that a value stands for, or the problems in it after some words. -/
def ofValue (error : String → Error) (v : Value) : Except Error Settings :=
  match Settings.read v with
  | .good s => .ok s
  | .bad ps => .error (error (problemsText ps))

/-- What is said of a text that is no JSON. -/
def notJson : String := "<invalid JSON>"

/-- The entries of the object in a file. -/
def readObject (label : String) (p : Path) : Action (List (Value × Value)) := do
  match Json.read (← Action.textAt p) with
  | .ok (.map es) => return es
  | .ok _ => throw (fileError label p "expected a JSON object")
  | .error .malformed => throw (fileError label p notJson)
  | .error .tooLong => throw (.value .number)

/-- The settings of the user. -/
def load : Action Settings := do
  let p ← userFile
  if ← Action.isFile p then
    ofExcept (ofValue (fileError "global config" p)
      (.map (← readObject "global config" p)))
  else return .usual

/-- The text of a file with settings. -/
def fileText (s : Settings) : Except Error String := do
  return (← Json.write .ascii s.toValue) ++ "\n"

/-- Keeps settings as those of the user. -/
def save (s : Settings) : Action Unit := do
  let p ← userFile
  Action.replaceFile p (← ofExcept s.fileText)

/-- The entries of the settings for the folder where the session starts, if there are any. -/
def loadProject : Action (Option (List (Value × Value))) := do
  let p := projectFile (← get)
  if ← Action.isFile p then return some (← readObject "project config" p)
  else return none

end Settings
end Raml
