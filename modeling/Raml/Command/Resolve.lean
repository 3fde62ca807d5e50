import Raml.Command.Basic
import Raml.Yaml.Written.Node

/-!
# Writing the resolved definition

The definition with every template applied is written as the format of the output has it, or as
YAML, and either goes to a file when one is named.
-/

namespace Raml.Command

/-- The switches of the command. -/
def resolveSwitches : List Switch := [⟨["--output", "-o"], true⟩, ⟨["--yaml"], false⟩]

/-- Writes a value to a file and says so. -/
def writeResult (o : Output) (file : String) (v : Value) : Command Unit := do
  Output.writeTo file v
  o.tell (.success ("Wrote " ++ file))

/-- A value as a document, if all in it has a text. -/
def yamlText (v : Value) : Except Error String :=
  if v.isShown then .ok (Yaml.write v) else .error (.value .number)

/-- Writes the resolved definition at a location. -/
def resolve (c : Setting) (args : List String) : Command Unit := do
  let l ← readArguments resolveSwitches 1 args
  let a ← api c (l.others.headD "")
  let v ← (ofExcept a.dump : Action Value)
  let file := (l.value? "--output").getD ""
  if l.has "--yaml" then
    let text ← (ofExcept (yamlText v) : Action String)
    if file.isEmpty then
      Action.writeLine (String.ofList (Text.dropEnd (· == '\n') text.toList))
    else writeResult c.output file (.str text)
  else if file.isEmpty then c.output.respond v
  else writeResult c.output file v

end Raml.Command
