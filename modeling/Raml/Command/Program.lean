import Raml.Command.Configure
import Raml.Command.Inspect
import Raml.Command.Resolve

/-!
# The program

A line of the program has switches of its own, then a command, then what the command takes. Before
the command looks at its part of the line, the settings are read and the format of the output is
settled; whatever is wrong with those ends the program first.
-/

namespace Raml.Command

/-- The name of the program and its version. -/
def versionText : String := "ramlkit 0.1.0"

/-- The switches of the program. -/
def programSwitches : List Switch := [
  ⟨["--version"], false⟩, ⟨["--help"], false⟩, ⟨["--json"], false⟩, ⟨["--plain"], false⟩,
  ⟨["--no-color"], false⟩, ⟨["--quiet", "-q"], false⟩, ⟨["--verbose", "-v"], false⟩,
  ⟨["--timeout"], true⟩]

/-- Answers the first switch that asks for something in place of a command. -/
def answerSwitches (l : Line) : Command Unit := do
  match l.switches.find? fun e => e.1 == "--version" || e.1 == "--help" with
  | some ("--version", _) => do
    Action.writeLine versionText
    throw (.done 0)
  | some _ => throw .help
  | none => return ()

/-- The line up to the command. -/
def readProgramLine (args : List String) : Command Line := do
  match Line.read programSwitches false args with
  | none => throw .misuse
  | some l =>
    answerSwitches l
    return l

/-- The time that a switch gives. -/
def timeoutOf (l : Line) : Command (Option Value) := do
  match l.value? "--timeout" with
  | none => return none
  | some s =>
    match Numeral.floating? s with
    | some x => return some (.float x.toFloat)
    | none => throw .misuse

/-- The format that a switch gives. -/
def formatOf (l : Line) : Option String :=
  if l.has "--json" then some Format.json.name
  else if l.has "--plain" then some Format.plain.name
  else none

/-- Reads the settings and settles the output. -/
def prepare (l : Line) (timeout : Option Value) : Command Setting := do
  let settings ← Settings.effective ⟨timeout, formatOf l⟩
  match Format.ofName? settings.output.format with
  | none => throw (.failed (.usage (Format.unknownMessage settings.output.format)))
  | some f =>
    let output := Output.forSession (← get) f (l.has "--no-color") (l.has "--quiet")
      (l.has "--verbose") none
    return ⟨output, settings⟩

/-- A command under a name, or several of them. -/
inductive Entry where
  | command (run : Setting → List String → Command Unit)
  | group (commands : List (String × (Setting → List String → Command Unit)))

/-- What can be called by name. -/
def entries : List (String × Entry) := [
  ("resolve", .command resolve),
  ("inspect", .group (views.map fun v => (v.1, fun c => view c v.2))),
  ("config", .group
    [("show", showSettings), ("set", changeSetting), ("reset", resetSettings)])]

/-- Runs a command of a group. -/
def runGroup (commands : List (String × (Setting → List String → Command Unit))) (c : Setting)
    (args : List String) : Command Unit := do
  if args.isEmpty then throw .noCommand
  match (← readLine [] false args).others with
  | [] => throw .misuse
  | name :: rest =>
    match commands.lookup name with
    | some run => run c rest
    | none => do
      let _ ← readLine [] false (name :: rest)
      throw .misuse

/-- Runs what a name calls. -/
def Entry.run (c : Setting) (args : List String) : Entry → Command Unit
  | .command run => run c args
  | .group commands => runGroup commands c args

/--
Runs the program. A name that calls nothing is read as a switch once more, for it may ask for
something in place of a command.
-/
def program (args : List String) : Command Unit := do
  if args.isEmpty then throw .noCommand
  let l ← readProgramLine args
  let timeout ← timeoutOf l
  match l.others with
  | [] => throw .misuse
  | name :: rest =>
    match entries.lookup name with
    | none => do
      let _ ← readProgramLine (name :: rest)
      throw .misuse
    | some e =>
      let c ← prepare l timeout
      e.run c rest

/-- What is settled before a command looks at its part of the line. -/
def settingOf (args : List String) : Command Setting := do
  let l ← readProgramLine args
  prepare l (← timeoutOf l)

/-- The output with which a line reports an error: that of its command, once it is settled. -/
def outputFor (args : List String) (s : Session) : Output :=
  match settingOf args s with
  | .ok c _ => c.output
  | .error _ _ => .unsettled s

end Command

/-- Runs the program in a session. An error is reported before the program ends; if it cannot be,
the program ends with that. -/
def Session.run (args : List String) (s : Session) : Ending × Session :=
  match Command.program args s with
  | .ok _ t => (.done 0, t)
  | .error (.failed e) t =>
    match (Command.outputFor args s).tell (.error e.report) t with
    | .ok _ t => (.failed e, t)
    | .error e t => (.failed e, t)
  | .error e t => (e, t)

end Raml
