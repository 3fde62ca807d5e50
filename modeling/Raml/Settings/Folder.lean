import Raml.Session.Basic

/-!
# Where settings lie

Settings lie in a folder of the user: one in the folder for all settings, which a variable of the
surroundings can name, or one of their own at home where there is no such custom. The folder is made
when it is first asked for. A second file of settings may lie in the folder where the session
starts, and holds for that folder only.
-/

namespace Raml.Settings

/-- The name of the program, as it stands in paths. -/
def programName : String := "ramlkit"

/-- The folder that is the home of the user, if the variables name one. -/
def home (environment : Table String) : Except Error Path :=
  match environment.get? "HOME" with
  | none => .error .noHome
  | some place =>
    if Text.startsWith "~" place then .error .noHome
    else
      let place := String.ofList (Text.dropEnd (· == '/') place.toList)
      .ok (Path.ofString (if place.isEmpty then "/" else place))

/-- The folder for all settings. -/
def sharedFolder (environment : Table String) : Except Error Path :=
  let given := (environment.get? "XDG_CONFIG_HOME").getD ""
  if given.isEmpty then do return (← home environment).join (Path.ofString ".config")
  else .ok (Path.ofString given)

/-- The folder in which the settings lie. -/
def folderFor (s : Session) : Except Error Path := do
  if s.sharesFolder then
    return (← sharedFolder s.environment).join (Path.ofString programName)
  else return (← home s.environment).join (Path.ofString ("." ++ programName))

/-- The folder in which the settings lie, made if it lacks. -/
def folder : Action Path := do
  let p ← ofExcept (folderFor (← get))
  Action.makeFolders p
  return p

/-- The file of the settings of the user. -/
def userFile : Action Path := do return (← folder).join (Path.ofString "config.json")

/-- The file of the settings for the folder where the session starts. -/
def projectFile (s : Session) : Path := ⟨"/", s.world.disk.home ++ [programName ++ ".json"]⟩

end Raml.Settings
