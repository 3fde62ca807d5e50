import Raml.Text.Piece

/-!
# Command lines

An argument that begins with a dash and goes on is a switch, or several of one letter in a row.
Some switches take a value: what follows an equals sign in a long one, the rest of a row of
letters, or else the next argument, whatever it looks like. Two dashes alone end the switches. On a
mixed line switches may stand between other arguments; on one that is not, the first other
argument ends them too, so that a command after it can have switches of its own.
-/

namespace Raml.Command

/-- A switch that a command knows, under its names. -/
structure Switch where
  names : List String
  takesValue : Bool
  deriving DecidableEq, Repr, Inhabited

/-- The name by which a switch is told from others. -/
def Switch.name (s : Switch) : String := s.names.headD ""

/-- A line, taken apart: the switches on it by name, with their values, and all else. -/
structure Line where
  switches : List (String × String)
  others : List String
  deriving DecidableEq, Repr, Inhabited

namespace Line

/-- Whether a switch stands on the line. -/
def has (name : String) (l : Line) : Bool := l.switches.any fun e => e.1 == name

/-- The value of a switch; the last one counts. -/
def value? (name : String) (l : Line) : Option String := l.switches.reverse.lookup name

/-- The switch among those known that has the given name. -/
def find? (known : List Switch) (name : String) : Option Switch :=
  known.find? fun s => s.names.contains name

/-- Switches with their values, and the name of a last one that still wants a value. -/
abbrev Found := List (String × String) × Option String

/-- What a row of letters stands for. -/
def readLetters (known : List Switch) : List Char → Option Found
  | [] => some ([], none)
  | c :: cs =>
    match find? known (String.ofList ['-', c]) with
    | none => none
    | some s =>
      if s.takesValue then
        if cs.isEmpty then some ([], some s.name)
        else some ([(s.name, String.ofList cs)], none)
      else (readLetters known cs).map fun (found, wants) => ((s.name, "") :: found, wants)

/-- What a long switch stands for; `value` is what follows an equals sign. -/
def readLong (s : Switch) (value : Option String) : Option Found :=
  match value with
  | some v => if s.takesValue then some ([(s.name, v)], none) else none
  | none => if s.takesValue then some ([], some s.name) else some ([(s.name, "")], none)

/-- Whether an argument begins with two dashes. -/
def isLong (arg : String) : Bool := Text.startsWith "--" arg

/-- What an argument with a dash stands for. -/
def readSwitch (known : List Switch) (arg : String) : Option Found :=
  if isLong arg then
    let (name, value) := match Text.cut? ['='] arg.toList with
      | some (name, value) => (String.ofList name, some (String.ofList value))
      | none => (arg, none)
    (find? known name).bind fun s => readLong s value
  else readLetters known (arg.toList.drop 1)

/-- Whether an argument is a switch: a dash alone is none. -/
def isSwitch (arg : String) : Bool := Text.startsWith "-" arg && arg.length > 1

/-- Takes a line apart, if every switch on it is known and has a value when it needs one. -/
def read (known : List Switch) (mixed : Bool) : List String → Option Line
  | [] => some ⟨[], []⟩
  | arg :: rest =>
    if arg = "--" then some ⟨[], rest⟩
    else if isSwitch arg then
      match readSwitch known arg with
      | none => none
      | some (found, none) =>
        (read known mixed rest).map fun l => { l with switches := found ++ l.switches }
      | some (found, some name) =>
        match rest with
        | [] => none
        | value :: rest =>
          (read known mixed rest).map fun l =>
            { l with switches := found ++ (name, value) :: l.switches }
    else if mixed then
      (read known mixed rest).map fun l => { l with others := arg :: l.others }
    else some ⟨[], arg :: rest⟩

end Line
end Raml.Command
