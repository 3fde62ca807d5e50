import Raml.Command.Line
import Raml.Output.Basic
import Raml.Resolution.Api
import Raml.Settings.Layers

/-!
# Commands

A command is a step in a session that may end before its last line: with a code, with a screen of
help, because the line that calls it makes no sense, because nobody answers its question, or with an
error. `Ending.code` is the code with which each of these leaves the program.
-/

namespace Raml

/-- How a command ends. -/
inductive Ending where
  | done (code : Nat)
  /-- Help was asked for. -/
  | help
  /-- Help is given in place of a command that is not named. -/
  | noCommand
  /-- The line makes no sense. -/
  | misuse
  /-- A question found no answer. -/
  | aborted
  | failed (e : Error)
  deriving DecidableEq, Repr

/-- The code of a program that ends so; errors outside the language count as general ones. -/
def Ending.code : Ending → Nat
  | .done code => code
  | .help => 0
  | .noCommand => 2
  | .misuse => 2
  | .aborted => 1
  | .failed e => e.exitCode?.getD 1

/-- What is said of an error. -/
def Error.report (e : Error) : String := e.message?.getD "Unexpected error"

/-- A step of a command. -/
abbrev Command := EStateM Ending Session

namespace Command

/-- An action as a step of a command; when it fails, so does the command. -/
def ofAction {α : Type} (a : Action α) : Command α := fun s =>
  match a s with
  | .ok x s => .ok x s
  | .error e s => .error (.failed e) s

instance : MonadLift Action Command where
  monadLift := ofAction

/-- What the line of a program settles for the command on it. -/
structure Setting where
  output : Output
  settings : Settings
  deriving Inhabited

/-- The line of a command, taken apart; asking for help comes before all else. -/
def readLine (known : List Switch) (mixed : Bool) (args : List String) : Command Line := do
  match Line.read (⟨["--help"], false⟩ :: known) mixed args with
  | none => throw .misuse
  | some l => if l.has "--help" then throw .help else return l

/-- The line of a command that takes so many arguments. -/
def readArguments (known : List Switch) (count : Nat) (args : List String) : Command Line := do
  let l ← readLine known true args
  if l.others.length = count then return l else throw .misuse

/-- Says what is wrong and ends the command. -/
def refuse (o : Output) (words : String) (code : Nat) : Command Unit := do
  o.tell (.error words)
  throw (.done code)

/-- The resolved API definition at a location; what is worth a warning gets one, which is no text
with marks. -/
def api (c : Setting) (source : String) : Command Api := do
  let (result, journal) ← Action.load c.settings.fetch fun a => a.parse source
  for words in journal.warnings do
    Action.remark (Notice.warning words).plain
  match result with
  | .ok a => return a
  | .error e => throw (.failed e)

end Command
end Raml
