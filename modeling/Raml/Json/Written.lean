import Raml.Error
import Raml.Json.Quoted

/-!
# Values as JSON

A value is written over several lines: each item and each entry has one of its own, two columns
further in than what encloses it, and what holds nothing is a pair of brackets. Keys become texts;
a key that has none makes the whole value impossible to write. Values that JSON does not know are
written as the texts that show them.

Doubles that are no numbers have names here that strict readers of JSON refuse.
-/

namespace Raml.Json

/-- An integer in figures. -/
def intText (n : Int) : Except Error String :=
  if Value.isShort n then .ok (toString n) else .error (.value .number)

/-- The text of a key. -/
def keyText : Value → Except Error String
  | .str s => .ok s
  | .int n => intText n
  | .float x => .ok (Decimal.ofFloat .json x)
  | .bool b => .ok (if b then "true" else "false")
  | .null => .ok "null"
  | _ => .error .key

/-- So many blanks. -/
def blanks (n : Nat) : String := String.ofList (List.replicate n ' ')

/-- Items on lines of their own between brackets that stand in column `indent`. -/
def enclosed (opening closing : String) (indent : Nat) (items : List String) : String :=
  if items.isEmpty then opening ++ closing
  else
    let inner := "\n" ++ blanks (indent + 2)
    opening ++ inner ++ String.intercalate ("," ++ inner) items ++ "\n" ++ blanks indent ++ closing

mutual

/-- A value whose brackets stand in column `indent`. -/
def writeAt (a : Alphabet) (indent : Nat) : Value → Except Error String
  | .null => .ok "null"
  | .bool b => .ok (if b then "true" else "false")
  | .int n => intText n
  | .float x => .ok (Decimal.ofFloat .json x)
  | .str s => .ok (quote a s)
  | .list items => do return enclosed "[" "]" indent (← writeItems a (indent + 2) items)
  | .pair v w => do
    let first ← writeAt a (indent + 2) v
    let second ← writeAt a (indent + 2) w
    return enclosed "[" "]" indent [first, second]
  | .map entries => do
    return enclosed "\x7b" "\x7d" indent (← writeEntries a (indent + 2) entries)
  | v => if v.isShown then .ok (quote a v.display) else .error (.value .number)

/-- Each item. -/
def writeItems (a : Alphabet) (indent : Nat) : List Value → Except Error (List String)
  | [] => .ok []
  | v :: rest => do
    let first ← writeAt a indent v
    return first :: (← writeItems a indent rest)

/-- Each entry, with a colon after the key. -/
def writeEntries (a : Alphabet) (indent : Nat) :
    List (Value × Value) → Except Error (List String)
  | [] => .ok []
  | (k, v) :: rest => do
    let key ← keyText k
    let text ← writeAt a indent v
    return (quote a key ++ ": " ++ text) :: (← writeEntries a indent rest)

end

/-- A value as JSON. -/
def write (a : Alphabet) (v : Value) : Except Error String := writeAt a 0 v

end Raml.Json
