import Raml.Read.Field

/-!
# Settings

How documents are fetched and in which form output is written. Settings are read from mappings in
which every field may be missing, and written with every field.
-/

namespace Raml

/-- Reads the entries of a group of settings; nothing else stands for one. -/
def readGroup {α : Type} (name : String) (fields : Fields → Checked α) : Reader α
  | .map es => fields ⟨es.filterMap fun e =>
      match e.1 with
      | .str s => some (s, e.2)
      | _ => none, []⟩
  | _ => Checked.fail (.entity name)

/-- How documents are fetched from other hosts. -/
structure FetchSettings where
  /-- How many seconds an answer may take. -/
  timeout : Float
  followRedirects : Bool
  verifySsl : Bool
  deriving Inhabited

namespace FetchSettings

/-- The settings where none are given. -/
def usual : FetchSettings := ⟨30.0, true, true⟩

/-- Reads settings for fetching. -/
def read : Reader FetchSettings := readGroup "FetchConfig" fun f =>
  FetchSettings.mk <$> f.withDefault ["timeout"] usual.timeout Reader.double
    <*> f.withDefault ["follow_redirects"] usual.followRedirects Reader.truth
    <*> f.withDefault ["verify_ssl"] usual.verifySsl Reader.truth

/-- The mapping of settings for fetching. -/
def toValue (s : FetchSettings) : Value :=
  .map [(.str "timeout", .float s.timeout),
    (.str "follow_redirects", .bool s.followRedirects), (.str "verify_ssl", .bool s.verifySsl)]

end FetchSettings

/-- How output is written. -/
structure OutputSettings where
  format : String
  deriving Inhabited, DecidableEq

namespace OutputSettings

/-- The settings where none are given. -/
def usual : OutputSettings := ⟨"auto"⟩

/-- Reads settings for output. -/
def read : Reader OutputSettings := readGroup "OutputConfig" fun f =>
  OutputSettings.mk <$> f.withDefault ["format"] usual.format Reader.strictText

/-- The mapping of settings for output. -/
def toValue (s : OutputSettings) : Value := .map [(.str "format", .str s.format)]

end OutputSettings

/-- All settings. -/
structure Settings where
  fetch : FetchSettings
  output : OutputSettings
  deriving Inhabited

namespace Settings

/-- The settings where none are given. -/
def usual : Settings := ⟨.usual, .usual⟩

/-- Reads settings. -/
def read : Reader Settings := readGroup "GlobalConfig" fun f =>
  Settings.mk <$> f.withDefault ["fetch"] .usual FetchSettings.read
    <*> f.withDefault ["output"] .usual OutputSettings.read

/-- The groups of settings under their names. -/
def entries (s : Settings) : List (Value × Value) :=
  [(.str "fetch", s.fetch.toValue), (.str "output", s.output.toValue)]

/-- The mapping of settings. -/
def toValue (s : Settings) : Value := .map s.entries

end Settings
end Raml
