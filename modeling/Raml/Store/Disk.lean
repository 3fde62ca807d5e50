import Raml.Error
import Raml.Location.Path
import Raml.Table

/-!
# Files and folders

A disk holds files and folders under paths, and knows the folder in which paths that do not begin
with a slash start. A path is followed name by name: each one but the last has to be that of a
folder, and two dots lead to the folder above, or nowhere from the topmost one.
-/

namespace Raml

/-- What a path can lead to. -/
inductive Entry where
  | folder
  | file (bytes : List UInt8)
  deriving DecidableEq, Repr, Inhabited

/-- A disk. Entries stand under the names that lead to them, joined by slashes. -/
structure Disk where
  /-- The names that lead to the folder where relative paths start. -/
  home : List String
  entries : Table Entry
  deriving Inhabited

namespace Disk

/-- The key of the entry to which names lead. -/
def key (names : List String) : String := String.intercalate "/" names

/-- What names lead to; no names lead to the topmost folder. -/
def entry? (d : Disk) (names : List String) : Option Entry :=
  if names.isEmpty then some .folder else d.entries.get? (key names)

/-- How many bytes a name may have, and a path. -/
def longestName : Nat := 255
def longestPath : Nat := 4095

/-- Follows names from the folder to which `taken` leads. -/
def follow (d : Disk) (taken : List String) : List String → Except FileFault (List String)
  | [] => .ok taken
  | name :: rest =>
    match d.entry? taken with
    | none => .error .missing
    | some (.file _) => .error .notDirectory
    | some .folder =>
      if longestName < name.utf8ByteSize then .error .nameTooLong
      else d.follow (if name = ".." then taken.dropLast else taken ++ [name]) rest

/-- The names to which a path leads. Nothing needs to stand there yet. -/
def resolve (d : Disk) (p : Path) : Except FileFault (List String) :=
  if longestPath < p.toString.utf8ByteSize then .error .nameTooLong
  else d.follow (if p.isAbsolute then [] else d.home) p.names

/-- What a path leads to. -/
def find (d : Disk) (p : Path) : Except FileFault Entry := do
  match d.entry? (← d.resolve p) with
  | none => .error .missing
  | some e => .ok e

/-- The content of a file. -/
def read (d : Disk) (p : Path) : Except FileFault (List UInt8) := do
  match ← d.find p with
  | .folder => .error .directory
  | .file bytes => .ok bytes

/-- Whether a path leads to a file. -/
def isFile (d : Disk) (p : Path) : Bool :=
  match d.find p with
  | .ok (.file _) => true
  | _ => false

/-- Whether a path leads to a folder. -/
def isFolder (d : Disk) (p : Path) : Bool :=
  match d.find p with
  | .ok .folder => true
  | _ => false

/-- The names in a folder. -/
def list (d : Disk) (p : Path) : Except FileFault (List String) := do
  let names ← d.resolve p
  match d.entry? names with
  | none => .error .missing
  | some (.file _) => .error .notDirectory
  | some .folder =>
    return d.entries.names.filterMap fun k =>
      let place := Text.pieces '/' k
      if place.dropLast = names then place.getLast? else none

/-! ## Changes -/

/-- Puts an entry where names lead. -/
def put (d : Disk) (names : List String) (e : Entry) : Disk :=
  { d with entries := Table.set (key names) e d.entries }

/-- Writes a file. The folder that it goes to has to be there. -/
def write (d : Disk) (p : Path) (bytes : List UInt8) : Except FileFault Disk := do
  let names ← d.resolve p
  match d.entry? names with
  | some .folder => .error .directory
  | _ => return d.put names (.file bytes)

/-- Makes a folder where nothing stands yet. -/
def makeFolder (d : Disk) (p : Path) : Except FileFault Disk := do
  let names ← d.resolve p
  match d.entry? names with
  | some _ => .error .exists
  | none => return d.put names .folder

/-- Makes a folder unless there is one. -/
def needFolder (d : Disk) (p : Path) : Except FileFault Disk :=
  match d.makeFolder p with
  | .ok d => .ok d
  | .error f => if d.isFolder p then .ok d else .error f

/-- Makes a folder, given its names last one first, and the folders above it where they lack. -/
def needFolders (d : Disk) (root : String) : List String → Except FileFault Disk
  | [] => d.needFolder ⟨root, []⟩
  | name :: above =>
    let p : Path := ⟨root, (name :: above).reverse⟩
    match d.makeFolder p with
    | .error .missing => do
      let d ← d.needFolders root above
      d.needFolder p
    | .ok d => .ok d
    | .error f => if d.isFolder p then .ok d else .error f

/-- Makes a folder and the folders above it where they lack. -/
def makeFolders (d : Disk) (p : Path) : Except FileFault Disk :=
  d.needFolders p.root p.names.reverse

/-- Puts a file in the place of what a path leads to, which has to end in a name. -/
def replace (d : Disk) (p : Path) (bytes : List UInt8) : Except FileFault Disk :=
  if p.name.isEmpty || p.name = ".." then .error .busy else d.write p bytes

end Disk
end Raml
