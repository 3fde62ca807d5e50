import Raml.Location.Basic
import Raml.Settings.Basic
import Raml.Store.Disk

/-!
# Where documents come from

A `Store` answers for every location with the content found there or with the reason why there is
none. It also says how many documents can stand inside one another: no more than there are, and
for that reason reading them comes to an end.

Reading goes on record. The `Journal` holds the locations that were asked for, the requests made to
other hosts and the warnings given, in order, and it is kept when reading fails.
-/

namespace Raml

/-- The answer of another host. -/
inductive Answer where
  | reply (status : Nat) (bytes : List UInt8)
  | failure (words : String)
  deriving DecidableEq, Repr, Inhabited

/-- Why a store has no content for a location. -/
inductive StoreFault where
  | fetch (fault : FetchFault)
  /-- No file or address can have such a location. -/
  | location
  deriving DecidableEq, Repr

/-- Where documents come from. -/
structure Store where
  read : String → Except StoreFault (List UInt8)
  /-- How many documents can stand inside one another. -/
  depth : Nat

/-! ## The world of a program -/

/-- The files and hosts that a program can reach. -/
structure World where
  disk : Disk
  hosts : Table Answer
  deriving Inhabited

namespace World

/-- The content that another host gives. -/
def request (w : World) (location : String) : Except StoreFault (List UInt8) :=
  match w.hosts.get? location with
  | none => .error (.fetch (.connection location "unknown host"))
  | some (.failure words) => .error (.fetch (.connection location words))
  | some (.reply status bytes) =>
    if 200 ≤ status && status < 300 then .ok bytes
    else .error (.fetch (.status status location))

/-- The content of a file. -/
def readFile (w : World) (location : String) : Except StoreFault (List UInt8) :=
  let p := Path.ofString location
  if location.toList.contains '\x00' then .error .location
  else (w.disk.read p).mapError fun f => .fetch (.file f p.toString)

/-- What the world holds at a location. -/
def read (w : World) (location : String) : Except StoreFault (List UInt8) :=
  if Location.isUrl location then w.request location else w.readFile location

/--
The documents of the world. A chain of them holds each address and each file once, and after an
address at most one file under a path that is not normal.
-/
def store (w : World) : Store := ⟨w.read, 2 * (w.disk.entries.length + w.hosts.length) + 2⟩

end World

/-! ## Reading on record -/

/-- A request to another host. -/
structure Request where
  location : String
  settings : FetchSettings
  deriving Inhabited

/-- What happened while documents were read. -/
structure Journal where
  locations : List String
  requests : List Request
  warnings : List String
  deriving Inhabited

/-- The journal of nothing. -/
def Journal.empty : Journal := ⟨[], [], []⟩

/-- A step of reading documents. -/
abbrev Load := EStateM Error Journal

/-- A store, and how it is asked. -/
structure Access where
  store : Store
  settings : FetchSettings

namespace Access

/-- The request for a location, if it is one of another host. -/
def requestFor (a : Access) (location : String) : List Request :=
  if Location.isUrl location then [⟨location, a.settings⟩] else []

/-- Puts on record that a location is asked for. -/
def note (a : Access) (location : String) : Load Unit :=
  modify fun j => { j with
    locations := j.locations.concat location
    requests := j.requests ++ a.requestFor location }

/-- The content at a location, for a document that refers to it as `reference`. -/
def bytes (a : Access) (reference location : String) : Load (List UInt8) := do
  a.note location
  match a.store.read location with
  | .ok bs => return bs
  | .error .location => throw .location
  | .error (.fetch f) => throw (.fetch (if reference.isEmpty then location else reference) f)

/-- The text at a location. -/
def text (a : Access) (location : String) : Load String := do
  match Text.Utf8.decode (← a.bytes location location) with
  | .ok s => return s
  | .error f => throw (.fetch location (.encoding f))

end Access
end Raml
