import Raml.Command.Program

/-!
# Help

What can be said on the command line: the switches of the program and the names that call something.
-/

namespace Raml.Command

/-- The line for a switch. -/
def Switch.usageLine (s : Switch) : String :=
  "  " ++ String.intercalate ", " s.names ++ (if s.takesValue then " VALUE" else "")

/-- The lines for what a name calls. -/
def Entry.usageLines (name : String) : Entry → List String
  | .command _ => ["  " ++ name]
  | .group commands => commands.map fun c => "  " ++ name ++ " " ++ c.1

/-- The screen of help. -/
def usage : String :=
  String.intercalate "\n" (
    ["Usage: " ++ Settings.programName ++ " [OPTIONS] COMMAND [ARGS]...", "", "Options:"] ++
    programSwitches.map Switch.usageLine ++ ["", "Commands:"] ++
    entries.flatMap fun e => e.2.usageLines e.1) ++ "\n"

end Raml.Command
