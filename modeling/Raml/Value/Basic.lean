import Raml.Decimal.Shortest
import Raml.Value.Moment

/-!
# Values

A `Value` is what a node of a document stands for: nothing, a truth value, a number, a text, bytes,
a moment, a list, a set or a mapping. Mappings keep the order of their entries, and their keys are
values too.

Two values are the `same` when they denote one thing: numbers of different kinds are compared by
size, truth values count as nought and one, and mappings are compared without regard to order.
`insert` keeps one entry for each key.
-/

namespace Raml

/-- What a node of a document stands for. -/
inductive Value where
  | null
  | bool (b : Bool)
  | int (n : Int)
  | float (x : Float)
  | str (s : String)
  | bytes (bs : List UInt8)
  | moment (m : Moment)
  | list (items : List Value)
  /-- An entry of an ordered mapping. -/
  | pair (first second : Value)
  | set (items : List Value)
  | map (entries : List (Value × Value))
  deriving Inhabited

namespace Value

/-! ## Sameness -/

/-- Whether a double is the integer `n`. -/
def floatIsInt (x : Float) (n : Int) : Bool :=
  match Decimal.classify x with
  | .finite b =>
    let size : Int := if b.negative then -b.mantissa else b.mantissa
    if 0 ≤ b.exponent then size * (Decimal.twoTo b.exponent.toNat : Nat) == n
    else size == n * (Decimal.twoTo (-b.exponent).toNat : Nat)
  | _ => false

/-- A truth value as a number. -/
def truth (b : Bool) : Int := if b then 1 else 0

mutual

/-- Whether two values denote one thing. -/
def same : Value → Value → Bool
  | .null, .null => true
  | .bool a, .bool b => a == b
  | .bool a, .int b => truth a == b
  | .bool a, .float b => floatIsInt b (truth a)
  | .int a, .bool b => a == truth b
  | .int a, .int b => a == b
  | .int a, .float b => floatIsInt b a
  | .float a, .bool b => floatIsInt a (truth b)
  | .float a, .int b => floatIsInt a b
  | .float a, .float b => a == b
  | .str a, .str b => a == b
  | .bytes a, .bytes b => a == b
  | .moment a, .moment b => a == b
  | .list a, .list b => sameItems a b
  | .pair a b, .pair c d => a.same c && b.same d
  | .set a, .set b => a.length == b.length && allAmong a b
  | .map a, .map b => a.length == b.length && entriesAmong a b
  | _, _ => false

/-- Whether two lists agree item by item. -/
def sameItems : List Value → List Value → Bool
  | [], [] => true
  | a :: as, b :: bs => a.same b && sameItems as bs
  | _, _ => false

/-- Whether every item has its like in `others`. -/
def allAmong : List Value → List Value → Bool
  | [], _ => true
  | a :: as, others => others.any (fun b => a.same b) && allAmong as others

/-- Whether every entry has its like in `others`. -/
def entriesAmong : List (Value × Value) → List (Value × Value) → Bool
  | [], _ => true
  | (k, v) :: rest, others =>
    others.any (fun other => k.same other.1 && v.same other.2) && entriesAmong rest others

end

/-! ## Mappings -/

/-- The entry under a key. -/
def find? {α : Type} (key : Value) (entries : List (Value × α)) : Option α :=
  (entries.find? fun e => e.1.same key).map Prod.snd

/-- The entry under a text key. -/
def get? {α : Type} (key : String) (entries : List (Value × α)) : Option α :=
  find? (.str key) entries

/-- Puts an entry under a key: in place of the old one, or after all other entries. -/
def insert {α : Type} (key : Value) (a : α) : List (Value × α) → List (Value × α)
  | [] => [(key, a)]
  | (k, b) :: rest => if k.same key then (k, a) :: rest else (k, b) :: insert key a rest

/-- One entry for each key: the last one at the place of the first. -/
def mapOf {α : Type} (entries : List (Value × α)) : List (Value × α) :=
  entries.foldl (fun acc e => insert e.1 e.2 acc) []

/-! ## Kinds -/

/-- The name of the kind of a value, as messages give it. -/
def kind : Value → String
  | .null => "NoneType"
  | .bool _ => "bool"
  | .int _ => "int"
  | .float _ => "float"
  | .str _ => "str"
  | .bytes _ => "bytes"
  | .moment m => if m.clock.isSome then "datetime" else "date"
  | .list _ => "list"
  | .pair _ _ => "tuple"
  | .set _ => "set"
  | .map _ => "dict"

/-- Whether nothing stands there. -/
def isNull : Value → Bool
  | .null => true
  | _ => false

/-- Whether a value counts as given: not null, false, nought or empty. -/
def isTruthy : Value → Bool
  | .null => false
  | .bool b => b
  | .int n => n != 0
  | .float x => !(x == 0.0)
  | .str s => !s.isEmpty
  | .bytes bs => !bs.isEmpty
  | .moment _ => true
  | .list items => !items.isEmpty
  | .pair _ _ => true
  | .set items => !items.isEmpty
  | .map entries => !entries.isEmpty

end Value
end Raml
