import Raml.Json.Written
import Raml.Output.Format
import Raml.Output.Sheet
import Raml.Session.Basic

/-!
# Output

Results go to one place and remarks to another, so that results can be read by programs. A result
is a value: as JSON, or plainly as one line for each entry of a mapping or item of a list. It may
also go to a file. A quiet output keeps to itself what merely informs, and only a talkative one
tells details.

Remarks with colours go to the terminal as texts with marks, and whatever looks like a mark in the
words themselves is one to the terminal. A text whose marks do not match is not taken by it.
-/

namespace Raml

/-- Something to say beside the results. -/
inductive Notice where
  | info (words : String)
  | success (words : String)
  | warning (words : String)
  | error (words : String)
  | detail (words : String)
  deriving DecidableEq, Repr

namespace Notice

/-- The line for a notice, without colours. -/
def plain : Notice → String
  | .info words => words
  | .success words => words
  | .warning words => "Warning: " ++ words
  | .error words => "Error: " ++ words
  | .detail words => "[debug] " ++ words

/-- The line for a notice, with marks for its colours. -/
def marked : Notice → String
  | .info words => words
  | .success words => "[green]" ++ words ++ "[/green]"
  | .warning words => "[yellow]Warning:[/yellow] " ++ words
  | .error words => "[bold red]Error:[/bold red] " ++ words
  | .detail words => "[dim]\\[debug] " ++ words ++ "[/dim]"

end Notice

/-- How results and remarks are written. -/
structure Output where
  format : Format
  /-- Whether remarks are told in colours. -/
  colours : Bool
  quiet : Bool
  verbose : Bool
  /-- Where results go if not to those of the session; the empty text names no file. -/
  file : Option String
  deriving Inhabited

namespace Output

/-- The output for a session, with its format settled. -/
def forSession (s : Session) (format : Format) (noColours quiet verbose : Bool)
    (file : Option String) : Output :=
  let colours := !noColours && allowsColours s.environment
  ⟨format.settle colours s.onScreen, colours, quiet, verbose, file⟩

/-- The output of a session for which nothing is settled. -/
def unsettled (s : Session) : Output := forSession s .auto false false false none

/-! ## Remarks -/

/-- Whether the output keeps something to itself. -/
def mutes (o : Output) : Notice → Bool
  | .info _ | .success _ => o.quiet
  | .detail _ => !o.verbose
  | .warning _ | .error _ => false

/-- Says something. -/
def tell (o : Output) (n : Notice) : Action Unit := do
  if !o.mutes n then
    if o.colours then
      match (← get).terminal n.marked with
      | some shown => Action.remark shown
      | none => throw .encoding
    else Action.remark n.plain

/-! ## Results -/

/-- The text of a value, if it has one. -/
def shown (v : Value) : Except Error String :=
  if v.isShown then .ok v.display else .error (.value .number)

/-- A value on a line of plain results. -/
def plainText : Value → Except Error String
  | .map es => Json.write .unicode (.map es)
  | .list vs => Json.write .unicode (.list vs)
  | v => shown v

/-- A value as plain results, line by line. -/
def plainLines : Value → List (Except Error String)
  | .map es => es.map fun e => do
    let text ← plainText e.2
    return (← shown e.1) ++ "\t" ++ text
  | .list vs => vs.map plainText
  | v => [shown v]

/-- A value in a file: a text as it is, anything else as JSON, with a newline at the end. -/
def fileText (v : Value) : Except Error String := do
  let text ← match v with
    | .str s => pure s
    | v => Json.write .unicode v
  return if Text.endsWith "\n" text then text else text ++ "\n"

/-- Writes a value to a file. -/
def writeTo (file : String) (v : Value) : Action Unit := do
  let text ← ofExcept (fileText v)
  Action.putText (Path.ofString file) text

/-- Writes lines until one cannot be written. -/
def writeLines : List (Except Error String) → Action Unit
  | [] => pure ()
  | line :: rest => do
    Action.writeLine (← ofExcept line)
    writeLines rest

/-- Writes a value as the format has it, to the results of the session. -/
def present (o : Output) (v : Value) : Action Unit := do
  match o.format with
  | .json => Action.writeLine (← ofExcept (Json.write .unicode v))
  | .rich => Action.writeLine (← ofExcept (plainText v))
  | _ => writeLines (plainLines v)

/-- Writes a value where results go. -/
def respond (o : Output) (v : Value) : Action Unit :=
  match o.file with
  | some file => if file.isEmpty then o.present v else writeTo file v
  | none => o.present v

/-- Writes a sheet to the results of the session. -/
def presentSheet (o : Output) (s : Sheet) : Action Unit := do
  match o.format with
  | .json => Action.writeLine (← ofExcept (Json.write .unicode s.toValue))
  | _ => writeLines (s.lines.map .ok)

end Output
end Raml
