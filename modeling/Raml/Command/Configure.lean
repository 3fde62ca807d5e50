import Raml.Command.Basic
import Raml.Settings.Key

/-!
# Looking at settings and changing them

The settings in effect can be shown. Those of the user can be changed one at a time, or all be put
back to the usual ones, which has to be confirmed.
-/

namespace Raml.Command

/-- Shows the settings in effect. -/
def showSettings (c : Setting) (args : List String) : Command Unit := do
  let _ ← readArguments [] 0 args
  let place ← Settings.folder
  c.output.tell (.info ("Config directory: " ++ place.toString))
  c.output.respond c.settings.toValue

/-- Changes a setting of the user. -/
def changeSetting (c : Setting) (args : List String) : Command Unit := do
  let l ← readArguments [] 2 args
  let key := l.others.headD ""
  let user ← Settings.load
  match user.set key (l.others.getD 1 "") with
  | .error r => refuse c.output r.message 2
  | .ok (v, new) =>
    Settings.save new
    c.output.tell (.success ("Set " ++ key ++ " = " ++ v.display))

/-- The words for yes and for no; an empty line is no as well. -/
def yesWords : List String := ["y", "yes"]
def noWords : List String := ["n", "no", ""]

/-- Asks until a line says yes or no; none is left to say so at the end of the input. -/
def askWith (question : String) : List String → Command Bool
  | [] => do
    Action.write question
    modify fun s => { s with input := [] }
    throw .aborted
  | line :: rest => do
    Action.write question
    let word := Text.trim (Text.Unicode.toLower line)
    if yesWords.contains word || noWords.contains word then
      modify fun s => { s with input := rest }
      return yesWords.contains word
    else
      Action.writeLine "Error: invalid input"
      askWith question rest

/-- Asks whether to go on. -/
def confirm (question : String) : Command Bool := do
  askWith (question ++ " [y/N]: ") (← get).input

/-- Puts the settings of the user back to the usual ones. -/
def resetSettings (c : Setting) (args : List String) : Command Unit := do
  let l ← readArguments [⟨["--yes", "-y"], false⟩] 0 args
  let agreed ← if l.has "--yes" then pure true else confirm "Reset all config to defaults?"
  if agreed then
    Settings.save .usual
    c.output.tell (.success "Configuration reset to defaults.")
  else c.output.tell (.info "Cancelled.")

end Raml.Command
