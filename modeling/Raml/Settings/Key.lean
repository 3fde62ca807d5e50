import Raml.Settings.File
import Raml.Text.Unicode.Case

/-!
# Single settings by key

A key names a setting by the group and the name, with a dot between them. A new value is given as
text and is read as the kind of value that the setting has now.
-/

namespace Raml
namespace Settings

/-- Why a setting does not get a new value. -/
inductive Refusal where
  /-- Something on the way to the setting is no group. -/
  | invalidKey (key : String)
  | unknownKey (key : String)
  | notNumber (key text : String)
  | invalid (problems : List Problem)
  deriving DecidableEq, Repr

/-- The reason in words. -/
def Refusal.message : Refusal → String
  | .invalidKey key => "Invalid config key: " ++ key
  | .unknownKey key => "Unknown config key: " ++ key
  | .notNumber key text => "Expected a number for " ++ key ++ ", got: " ++ text
  | .invalid ps => "Validation error: " ++ problemsText ps

/-- The names that a key is made of. -/
def namesOf (key : String) : List String := Text.pieces '.' key

/-- The single setting to which names lead in a mapping. -/
def leaf? (key : String) : List String → List (Value × Value) → Except Refusal Value
  | [], _ => .error (.unknownKey key)
  | [name], es =>
    match Value.get? name es with
    | none => .error (.unknownKey key)
    | some (.map _) => .error (.unknownKey key)
    | some v => .ok v
  | name :: rest, es =>
    match Value.get? name es with
    | some (.map group) => leaf? key rest group
    | _ => .error (.invalidKey key)

/-- The mapping with another value where names lead. -/
def putLeaf (v : Value) : List String → List (Value × Value) → List (Value × Value)
  | [], es => es
  | [name], es => Value.insert (.str name) v es
  | name :: rest, es =>
    match Value.get? name es with
    | some (.map group) => Value.insert (.str name) (.map (putLeaf v rest group)) es
    | _ => es

/-- The words that switch a setting on. -/
def onWords : List String := ["true", "1", "yes"]

/-- A text as a value of the same kind as the one that a setting has. -/
def coerce (key text : String) : Value → Except Refusal Value
  | .bool _ => .ok (.bool (onWords.contains (Text.Unicode.toLower text)))
  | .float _ =>
    match Numeral.floating? text with
    | some x => .ok (.float x.toFloat)
    | none => .error (.notNumber key text)
  | .int _ =>
    match Numeral.integer? 10 text with
    | some n => .ok (.int n)
    | none => .error (.notNumber key text)
  | _ => .ok (.str text)

/-- Gives a setting a new value; the value comes with the settings. -/
def set (key text : String) (s : Settings) : Except Refusal (Value × Settings) := do
  let v ← coerce key text (← leaf? key (namesOf key) s.entries)
  match Settings.read (.map (putLeaf v (namesOf key) s.entries)) with
  | .good new => return (v, new)
  | .bad ps => throw (.invalid ps)

end Settings
end Raml
