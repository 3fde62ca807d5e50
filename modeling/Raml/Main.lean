import Raml.Command.Usage

/-!
# The program on a machine

A session is pure, so what a command may want to see has to be in its world before it runs. The
program runs first in a world where little is known. Whatever it looked at is then learnt from the
machine, and it runs again, until it looks at nothing new; only then what it changed is carried
over to the machine and what it wrote is shown. A question that found no answer is shown at once,
and the program runs again with the answer.
-/

namespace Raml.Machine

/-- The path that names lead to on the machine. -/
def pathOf (names : List String) : String := "/" ++ Disk.key names

/-- What the machine has at a path that begins with a slash. -/
def entry? (path : String) : IO (Option Entry) := do
  let place := (← IO.currentDir) / path
  if ← place.isDir then return some .folder
  else if ← place.pathExists then return some (.file (← IO.FS.readBinFile place).toList)
  else return none

/-- A disk that knows what names lead to. -/
def learn (d : Disk) (names : List String) : IO Disk := do
  if (d.entry? names).isSome then return d
  match ← entry? (pathOf names) with
  | some e => return d.put names e
  | none => return d

/-- A disk that knows what stands on the way of a path and at its end. -/
def learnPath (d : Disk) (p : Path) : IO Disk := do
  let mut d := d
  let mut taken : List String := if p.isAbsolute then [] else d.home
  for name in p.names do
    taken := if name == ".." then taken.dropLast else taken ++ [name]
    d ← learn d taken
  return d

/-- Runs the program until it looks at nothing that is not known. -/
partial def settle (args : List String) (s : Session) (known : List String) :
    IO (Ending × Session × Session) := do
  let (ending, t) := s.run args
  let new := t.visited.filter fun place => !known.contains place && !Location.isUrl place
  if new.isEmpty then return (ending, s, t)
  let disk ← new.foldlM (fun d place => learnPath d (Path.ofString place)) s.world.disk
  settle args { s with world := { s.world with disk } } (known ++ new)

/-- Shows results, apart from the first characters, which were shown before. -/
def showResults (t : Session) (shown : Nat) : IO Unit := do
  let out ← IO.getStdout
  out.putStr (Text.dropFirst shown t.results)
  out.flush

/-- Runs the program and lets it ask its questions. -/
partial def converse (args : List String) (s : Session) (shown : Nat) :
    IO (Ending × Session × Session) := do
  let (ending, before, after) ← settle args s []
  showResults after shown
  if ending != .aborted then return (ending, before, after)
  let line ← (← IO.getStdin).getLine
  if line.isEmpty then return (ending, before, after)
  let answer := if Text.endsWith "\n" line then Text.dropLast 1 line else line
  converse args { before with input := before.input ++ [answer] } after.results.length

/-- Carries over to the machine what a session has changed on its disk. -/
def carryOver (before after : Disk) : IO Unit := do
  for (key, e) in after.entries do
    if before.entries.get? key != some e then
      match e with
      | .folder => IO.FS.createDirAll ("/" ++ key)
      | .file bytes => IO.FS.writeBinFile ("/" ++ key) ⟨bytes.toArray⟩

/-- The variables that matter to the program. -/
def variableNames : List String :=
  ["HOME", "XDG_CONFIG_HOME", "NO_COLOR", "TERM", Settings.timeoutVariable, Settings.formatVariable]

/-- The variables of the machine that matter to the program. -/
def environment : IO (Table String) := do
  let values ← variableNames.mapM fun name => do
    return (← IO.getEnv name).map (name, ·)
  return values.filterMap id

/-- The session with which the program starts. -/
def session : IO Session := do
  let home := (Path.ofString (← IO.currentDir).toString).names
  let disk ← learnPath ⟨home, []⟩ ⟨"/", home⟩
  let s := Session.start ⟨disk, []⟩ (← environment)
  return { s with onScreen := ← (← IO.getStdout).isTty }

/-- Shows what an ending has to show beside what the program wrote. -/
def showEnding : Ending → IO Unit
  | .help => IO.print Command.usage
  | .noCommand => IO.print Command.usage
  | .misuse => IO.eprint Command.usage
  | .aborted => IO.eprintln "Aborted."
  | _ => return ()

end Raml.Machine

/-- Runs the program with the arguments of its command line. -/
def main (args : List String) : IO UInt32 := do
  let (ending, before, after) ← Raml.Machine.converse args (← Raml.Machine.session) 0
  Raml.Machine.carryOver before.world.disk after.world.disk
  (← IO.getStderr).putStr after.remarks
  Raml.Machine.showEnding ending
  return UInt32.ofNat ending.code
