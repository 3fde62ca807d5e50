import Raml.Decimal.Layout
import Raml.Decimal.Numeral
import Raml.Text.Quoted
import Raml.Value.Basic

/-!
# Values as text

`display` shows a value the way messages and plain output do: a text as it is, anything else in
its literal form. `literal` is the literal form, in which texts are quoted. `key` is the text that
a mapping key becomes, and `yamlText` the text of a parameter value inside a template; they
differ from `display` in truth values and, the last, in null.

An integer is shown with as many figures as are read and not with more, so a value has a text only
if it `isShown`. Whatever needs the text of another value fails.
-/

namespace Raml.Value

/-! ## Values without a text -/

/-- Whether an integer has no more figures than are read. -/
def isShort (n : Int) : Bool := (Decimal.digitsOf n.natAbs).length ≤ Numeral.longest

/-- What is said of an integer that has more. -/
def longMessage : String :=
  "Exceeds the limit (" ++ toString Numeral.longest ++ " digits) for integer string conversion; " ++
    "use sys.set_int_max_str_digits() to increase the limit"

mutual

/-- Whether every integer in a value has a text. -/
def isShown : Value → Bool
  | .int n => isShort n
  | .list items => areShown items
  | .pair a b => a.isShown && b.isShown
  | .set items => areShown items
  | .map entries => entriesShown entries
  | _ => true

/-- Whether every integer in one of the items has a text. -/
def areShown : List Value → Bool
  | [] => true
  | v :: rest => v.isShown && areShown rest

/-- Whether every integer in one of the entries has a text. -/
def entriesShown : List (Value × Value) → Bool
  | [] => true
  | (k, v) :: rest => k.isShown && v.isShown && entriesShown rest

end

mutual

/-- Whether every key of a mapping in a value has a text. -/
def keysShown : Value → Bool
  | .list items => itemKeysShown items
  | .pair a b => a.keysShown && b.keysShown
  | .set items => itemKeysShown items
  | .map entries => entryKeysShown entries
  | _ => true

/-- Whether every key of a mapping in one of the items has a text. -/
def itemKeysShown : List Value → Bool
  | [] => true
  | v :: rest => v.keysShown && itemKeysShown rest

/-- Whether every key of a mapping has a text, and those inside of its values have one. -/
def entryKeysShown : List (Value × Value) → Bool
  | [] => true
  | (k, v) :: rest => k.isShown && v.keysShown && entryKeysShown rest

end

/-! ## Texts -/

/-- Items between brackets. -/
def bracketed (opening closing : String) (items : List String) : String :=
  opening ++ String.intercalate ", " items ++ closing

/-- A distance from universal time in days and seconds of a day. -/
def offsetLiteral (seconds : Int) : String :=
  if seconds = 0 then "datetime.timezone.utc"
  else
    let days := Int.fdiv seconds 86400
    let rest := Int.fmod seconds 86400
    let parts :=
      (if days = 0 then [] else ["days=" ++ toString days]) ++
      (if rest = 0 then [] else ["seconds=" ++ toString rest])
    "datetime.timezone(" ++ bracketed "datetime.timedelta(" ")" parts ++ ")"

/-- The literal form of a moment. -/
def momentLiteral (m : Moment) : String :=
  let day := [toString m.year, toString m.month, toString m.day]
  match m.clock with
  | none => bracketed "datetime.date(" ")" day
  | some c =>
    let time := [toString c.hour, toString c.minute] ++
      (if c.second = 0 && c.micro = 0 then [] else [toString c.second]) ++
      (if c.micro = 0 then [] else [toString c.micro])
    let zone := match c.offset with
      | some seconds => ["tzinfo=" ++ offsetLiteral seconds]
      | none => []
    bracketed "datetime.datetime(" ")" (day ++ time ++ zone)

mutual

/-- The literal form of a value. -/
def literal : Value → String
  | .null => "None"
  | .bool b => if b then "True" else "False"
  | .int n => toString n
  | .float x => Decimal.ofFloat .plain x
  | .str s => Text.Quoted.text s
  | .bytes bs => Text.Quoted.bytes bs
  | .moment m => momentLiteral m
  | .list items => bracketed "[" "]" (literals items)
  | .pair a b => bracketed "(" ")" [a.literal, b.literal]
  | .set items => if items.isEmpty then "set()" else bracketed "\x7b" "\x7d" (literals items)
  | .map entries => bracketed "\x7b" "\x7d" (entryLiterals entries)

/-- The literal form of each item. -/
def literals : List Value → List String
  | [] => []
  | v :: vs => v.literal :: literals vs

/-- The literal form of each entry, with a colon after the key. -/
def entryLiterals : List (Value × Value) → List String
  | [] => []
  | (k, v) :: rest => (k.literal ++ ": " ++ v.literal) :: entryLiterals rest

end

/-- A value as it is shown: texts without quotes. -/
def display : Value → String
  | .str s => s
  | .moment m => m.write " "
  | v => v.literal

/-- The text of a mapping key, with truth values as documents write them. -/
def key : Value → String
  | .bool b => if b then "true" else "false"
  | v => v.display

/-- The text of a parameter value inside a template. -/
def yamlText : Value → String
  | .bool b => if b then "true" else "false"
  | .null => ""
  | v => v.display

end Raml.Value
