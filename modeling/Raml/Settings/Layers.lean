import Raml.Settings.File

/-!
# Layers of settings

Settings come from several places, of which the later ones win: the usual settings, the file of the
user, the file of the project, variables of the surroundings, and the command itself. The file of
the project is laid over the settings of the user entry by entry, down to the single setting, and
the whole is read as settings only once all layers are in place.
-/

namespace Raml
namespace Settings

/-! ## Laying values over one another -/

mutual

/-- The value `over`, and what it leaves of `base` if both are mappings. -/
def overlay (base : Value) : Value → Value
  | .map es =>
    match base with
    | .map bs => .map (overlayEntries bs es)
    | _ => .map es
  | v => v

/-- Entries laid over others: in place of those with the same keys, or after them all. -/
def overlayEntries (base : List (Value × Value)) : List (Value × Value) → List (Value × Value)
  | [] => base
  | (k, v) :: rest =>
    let v := match Value.find? k base with
      | some b => overlay b v
      | none => v
    overlayEntries (Value.insert k v base) rest

end

/-- Entries with one setting changed; its group has to be a mapping. -/
def assign (group name : String) (v : Value) (es : List (Value × Value)) :
    Except Error (List (Value × Value)) :=
  match Value.get? group es with
  | some (.map settings) =>
    .ok (Value.insert (.str group) (.map (Value.insert (.str name) v settings)) es)
  | _ => .error .noGroup

/-- The same, if a new value is given at all. -/
def assign? (group name : String) (v : Option Value) (es : List (Value × Value)) :
    Except Error (List (Value × Value)) :=
  match v with
  | some v => assign group name v es
  | none => .ok es

/-! ## The layers -/

/-- Settings that a command gives itself. -/
structure Overrides where
  timeout : Option Value
  format : Option String
  deriving Inhabited

/-- The variables that give settings. -/
def timeoutVariable : String := "RAMLKIT_TIMEOUT"
def formatVariable : String := "RAMLKIT_FORMAT"

/-- The value of a variable, unless it is empty. -/
def given? (name : String) (environment : Table String) : Option String :=
  (environment.get? name).filter fun s => !s.isEmpty

/-- The time that a variable gives. -/
def timeoutOf (s : String) : Except Error Value :=
  match Numeral.floating? s with
  | some x => .ok (.float x.toFloat)
  | none => .error (.config (timeoutVariable ++ " must be a number of seconds, got: " ++ s))

/-- Entries with the settings from variables laid over them. -/
def withVariables (environment : Table String) (es : List (Value × Value)) :
    Except Error (List (Value × Value)) := do
  let timeout ← (given? timeoutVariable environment).mapM timeoutOf
  let es ← assign? "fetch" "timeout" timeout es
  assign? "output" "format" ((given? formatVariable environment).map .str) es

/-- Entries with the settings of a command laid over them. -/
def Overrides.apply (o : Overrides) (es : List (Value × Value)) :
    Except Error (List (Value × Value)) := do
  let es ← assign? "fetch" "timeout" o.timeout es
  assign? "output" "format" (o.format.map .str) es

/-- The settings that all layers together give. -/
def merge (user : Settings) (project : Option (List (Value × Value))) (environment : Table String)
    (o : Overrides) : Except Error Settings := do
  let es := match project with
    | some given => overlayEntries user.entries given
    | none => user.entries
  let es ← withVariables environment es
  let es ← o.apply es
  ofValue (fun words => .config ("Invalid configuration: " ++ words)) (.map es)

/-- The settings that are in effect. -/
def effective (o : Overrides) : Action Settings := do
  let user ← load
  let project ← loadProject
  ofExcept (merge user project (← get).environment o)

end Settings
end Raml
