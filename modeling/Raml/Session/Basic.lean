import Raml.Output.Marks
import Raml.Store.Basic

/-!
# Sessions

A `Session` is all that a command can see and change: the world of files and hosts, the variables of
its surroundings, the terminal, the lines that wait to be read, and what it has written so far,
results and remarks apart. An `Action` is a step in a session. What an action has done stays done
when it fails, so a failure tells nothing about the session but what the action itself promises.

Every path that an action looks at is put on record, whatever it finds there.
-/

namespace Raml

/-- All that a command can see and change. -/
structure Session where
  world : World
  environment : Table String
  /-- Whether settings lie in the folder for settings rather than in one of their own. -/
  sharesFolder : Bool
  /-- Whether results go to somebody who reads them on a screen. -/
  onScreen : Bool
  /-- What the terminal shows of a text with marks for colours, if it takes the text at all. -/
  terminal : String → Option String
  /-- The lines that can be read. -/
  input : List String
  /-- The results written so far. -/
  results : String
  /-- The remarks written so far. -/
  remarks : String
  /-- The paths and addresses looked at so far. -/
  visited : List String
  deriving Inhabited

/-- A step in a session. -/
abbrev Action := EStateM Error Session

namespace Session

/-- A session at its start. -/
def start (world : World) (environment : Table String) : Session :=
  { world := world, environment := environment, sharesFolder := true, onScreen := false
    terminal := Marks.shown?, input := [], results := "", remarks := "", visited := [] }

/-- The lines of a text; what follows the last newline is a line unless it is empty. -/
def linesOf (s : String) : List String :=
  let ls := Text.pieces '\n' s
  if ls.getLast? = some "" then ls.dropLast else ls

end Session

namespace Action

/-- Adds to the results. -/
def write (text : String) : Action Unit := modify fun s => { s with results := s.results ++ text }

/-- Adds a line to the results. -/
def writeLine (text : String) : Action Unit := write (text ++ "\n")

/-- Adds a line to the remarks. -/
def remark (text : String) : Action Unit :=
  modify fun s => { s with remarks := s.remarks ++ text ++ "\n" }

/-! ## Files -/

/-- Puts a path on record. No path has a null character in it. -/
def visit (p : Path) : Action Unit := do
  modify fun s => { s with visited := s.visited.concat p.toString }
  if p.toString.toList.contains '\x00' then throw .location

/-- Looks something up on the disk. -/
def look {α : Type} (p : Path) (f : Disk → Except FileFault α) : Action α := do
  visit p
  ofExcept ((f (← get).world.disk).mapError Error.file)

/-- Changes the disk, or leaves it as it is. -/
def change (p : Path) (f : Disk → Except FileFault Disk) : Action Unit := do
  let disk ← look p f
  modify fun s => { s with world := { s.world with disk } }

/-- Whether a path leads to a file. -/
def isFile (p : Path) : Action Bool := look p fun d => .ok (d.isFile p)

/-- The text of a file. -/
def textAt (p : Path) : Action String := do
  match Text.Utf8.decode (← look p fun d => d.read p) with
  | .ok s => return s
  | .error _ => throw .encoding

/-- Writes a text to a file. -/
def putText (p : Path) (text : String) : Action Unit :=
  change p fun d => d.write p (Text.Utf8.encode text)

/-- Makes a folder and those above it where they lack. -/
def makeFolders (p : Path) : Action Unit := change p fun d => d.makeFolders p

/-- Puts a file with a text where a path leads, with the folders above it. -/
def replaceFile (p : Path) (text : String) : Action Unit := do
  makeFolders p.parent
  change p fun d => d.replace p (Text.Utf8.encode text)

/-! ## Documents -/

/-- Reads documents with the given settings; what happened on the way comes with the result. -/
def load {α : Type} (settings : FetchSettings) (step : Access → Load α) :
    Action (Except Error α × Journal) := do
  let access : Access := ⟨(← get).world.store, settings⟩
  let (result, journal) := match step access .empty with
    | .ok a j => (Except.ok a, j)
    | .error e j => (Except.error e, j)
  modify fun s => { s with visited := s.visited ++ journal.locations }
  return (result, journal)

end Action
end Raml
