import Raml.Word.Number
import Raml.Word.Style

/-!
# Inflectors

An inflector is a named way to respell a parameter value. `Inflector.ofName?` reads the name,
without regard to case and with or without the leading exclamation marks, and `Inflector.apply`
respells. Only one of them can fail, on the empty word.
-/

namespace Raml.Template

/-- The ways to respell a word. -/
inductive Inflector where
  | singularize
  | pluralize
  | uppercase
  | lowercase
  | lowerCamelCase
  | upperCamelCase
  | lowerUnderscoreCase
  | upperUnderscoreCase
  | lowerHyphenCase
  | upperHyphenCase
  deriving DecidableEq, Repr

/-- Why a text could not be instantiated. -/
inductive Fault where
  | unknownInflector (name : String)
  /-- A word that needs a first letter and has none. -/
  | emptyWord
  /-- A value with an integer that has too many figures for a text. -/
  | longNumber
  deriving DecidableEq, Repr

namespace Inflector

/-- The name in lower case. -/
def name : Inflector → String
  | .singularize => "singularize"
  | .pluralize => "pluralize"
  | .uppercase => "uppercase"
  | .lowercase => "lowercase"
  | .lowerCamelCase => "lowercamelcase"
  | .upperCamelCase => "uppercamelcase"
  | .lowerUnderscoreCase => "lowerunderscorecase"
  | .upperUnderscoreCase => "upperunderscorecase"
  | .lowerHyphenCase => "lowerhyphencase"
  | .upperHyphenCase => "upperhyphencase"

/-- All inflectors. -/
def all : List Inflector :=
  [.singularize, .pluralize, .uppercase, .lowercase, .lowerCamelCase, .upperCamelCase,
    .lowerUnderscoreCase, .upperUnderscoreCase, .lowerHyphenCase, .upperHyphenCase]

/-- The inflector that a written name stands for. -/
def ofName? (written : String) : Option Inflector :=
  let bare := (Text.dropAround Text.isBlank written.toList).dropWhile (· == '!')
  let wanted := String.ofList (Text.Unicode.lowerChars bare)
  all.find? fun i => i.name == wanted

/-- Respells a word. -/
def apply : Inflector → String → Except Fault String
  | .singularize, s => .ok (Word.singularize s)
  | .pluralize, s => .ok (Word.pluralize s)
  | .uppercase, s => .ok (Text.Unicode.toUpper s)
  | .lowercase, s => .ok (Text.Unicode.toLower s)
  | .lowerCamelCase, s =>
    match Word.lowerCamel? s with
    | some t => .ok t
    | none => .error .emptyWord
  | .upperCamelCase, s => .ok (Word.upperCamel s)
  | .lowerUnderscoreCase, s => .ok (Word.underscored s)
  | .upperUnderscoreCase, s => .ok (Text.Unicode.toUpper (Word.underscored s))
  | .lowerHyphenCase, s => .ok (Word.hyphenated s)
  | .upperHyphenCase, s => .ok (Text.Unicode.toUpper (Word.hyphenated s))

end Inflector

/-- Respells a word with the inflector of the given name. -/
def inflect (value written : String) : Except Fault String :=
  match Inflector.ofName? written with
  | some i => i.apply value
  | none => .error (.unknownInflector (Text.trim written))

/-- Respells a word with one inflector after another. -/
def inflectAll (value : String) : List String → Except Fault String
  | [] => .ok value
  | written :: rest => do
    let next ← inflect value written
    inflectAll next rest

end Raml.Template
