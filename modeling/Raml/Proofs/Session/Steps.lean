import Raml.Proofs.Outcome
import Raml.Session.Basic

/-!
# What an action does to its session

An action that only looks puts the path on record and gives what the disk gives. So its outcome is
that of a function of the disk, and its session is the one before but for the record. `Reaches`
says as much of steps that change the disk: what else decides about later steps stays.
-/

namespace Raml

/-- Whether a path has no null character in it. -/
def Path.IsPlain (p : Path) : Prop := p.toString.toList.contains '\x00' = false

/-- Whether a path leads to a file with the given text. -/
def Disk.HasText (d : Disk) (p : Path) (text : String) : Prop :=
  ∃ bytes, d.read p = .ok bytes ∧ Text.Utf8.decode bytes = .ok text

/-- The session with a path on record. -/
def Session.noting (s : Session) (p : Path) : Session :=
  { s with visited := s.visited.concat p.toString }

/-- The session with a path on record and another disk. -/
def Session.changing (s : Session) (p : Path) (d : Disk) : Session :=
  { s.noting p with world := { s.world with disk := d } }

/-- The second session has the disk `d`, and the surroundings of the first one. -/
structure Session.Reaches (s : Session) (d : Disk) (t : Session) : Prop where
  environment : t.environment = s.environment
  sharesFolder : t.sharesFolder = s.sharesFolder
  disk : t.world.disk = d

namespace Session

variable {s t u : Session} {d d' : Disk}

theorem Reaches.refl (s : Session) : s.Reaches s.world.disk s := ⟨rfl, rfl, rfl⟩

/-- Getting on twice is getting on. -/
theorem Reaches.trans (h : s.Reaches d t) (h' : t.Reaches d' u) : s.Reaches d' u :=
  ⟨h'.environment.trans h.environment, h'.sharesFolder.trans h.sharesFolder, h'.disk⟩

/-- A step that does not touch the disk. -/
theorem Reaches.stay (h : s.Reaches d t) (h' : t.Reaches t.world.disk u) : s.Reaches d u :=
  h.trans (h.disk ▸ h')

theorem reaches_noting (s : Session) (p : Path) : s.Reaches s.world.disk (s.noting p) :=
  ⟨rfl, rfl, rfl⟩

theorem reaches_changing (s : Session) (p : Path) (d : Disk) : s.Reaches d (s.changing p d) :=
  ⟨rfl, rfl, rfl⟩

end Session

namespace Action

variable {α : Type} {p : Path} {s t : Session} {d : Disk} {f : Disk → Except FileFault α}

theorem visit_of_isPlain (h : p.IsPlain) (s : Session) : visit p s = .ok () (s.noting p) := by
  have hrun : visit p s = (if p.toString.toList.contains '\x00' then throw .location
      else pure () : Action Unit) (s.noting p) := rfl
  rw [hrun, h]
  rfl

theorem visit_of_not_isPlain (h : ¬p.IsPlain) (s : Session) :
    visit p s = .error .location (s.noting p) := by
  have hrun : visit p s = (if p.toString.toList.contains '\x00' then throw .location
      else pure () : Action Unit) (s.noting p) := rfl
  rw [hrun, (Bool.not_eq_false _).mp h]
  rfl

theorem look_of_isPlain (h : p.IsPlain) (f : Disk → Except FileFault α) (s : Session) :
    look p f s = (ofExcept ((f s.world.disk).mapError Error.file) : Action α) (s.noting p) :=
  bind_of_ok (visit_of_isPlain h s)

/-- Looking at a file succeeds exactly for a path that can be visited and of which the disk tells.
-/
theorem look_eq_ok {a : α} :
    look p f s = .ok a t ↔ p.IsPlain ∧ f s.world.disk = .ok a ∧ t = s.noting p := by
  by_cases hp : p.IsPlain
  · rw [look_of_isPlain hp]
    cases hf : f s.world.disk with
    | ok b =>
      constructor
      · rintro ⟨⟩
        exact ⟨hp, rfl, rfl⟩
      · rintro ⟨-, ⟨⟩, rfl⟩
        rfl
    | error e => exact ⟨nofun, nofun⟩
  · have hrun : look p f s = .error .location (s.noting p) :=
      bind_of_error (visit_of_not_isPlain hp s)
    rw [hrun]
    exact ⟨nofun, fun h => absurd h.1 hp⟩

/-- A look that failed has noted where it was. -/
theorem of_look_error {e : Error} (h : look p f s = .error e t) : t = s.noting p := by
  by_cases hp : p.IsPlain
  · rw [look_of_isPlain hp] at h
    cases hf : f s.world.disk with
    | ok a =>
      rw [hf] at h
      cases h
    | error e =>
      rw [hf] at h
      cases h
      rfl
  · cases (bind_of_error (visit_of_not_isPlain hp s)).symm.trans h
    rfl

/-- A change of the disk succeeds exactly for a path that can be visited and where the disk lets it.
-/
theorem change_eq_ok {f : Disk → Except FileFault Disk} : change p f s = .ok () t ↔
    p.IsPlain ∧ ∃ d, f s.world.disk = .ok d ∧ t = s.changing p d := by
  constructor
  · intro h
    obtain ⟨d, s₁, hlook, hrest⟩ := of_run_bind h
    obtain ⟨hp, hd, rfl⟩ := look_eq_ok.mp hlook
    cases hrest
    exact ⟨hp, d, hd, rfl⟩
  · rintro ⟨hp, d, hd, rfl⟩
    exact bind_of_ok (look_eq_ok.mpr ⟨hp, hd, rfl⟩)

/-- A disk that cannot be changed stays. -/
theorem of_change_error {f : Disk → Except FileFault Disk} {e : Error}
    (h : change p f s = .error e t) : t = s.noting p := by
  rcases of_run_bind_error h with hlook | ⟨d, s₁, -, hrest⟩
  · exact of_look_error hlook
  · cases hrest

theorem isFile_eq_ok {b : Bool} :
    isFile p s = .ok b t ↔ p.IsPlain ∧ s.world.disk.isFile p = b ∧ t = s.noting p := by
  rw [isFile, look_eq_ok, Except.ok.injEq]

/-- A file is read as the text that it holds. -/
theorem textAt_eq_ok {text : String} :
    textAt p s = .ok text t ↔ p.IsPlain ∧ s.world.disk.HasText p text ∧ t = s.noting p := by
  constructor
  · intro h
    obtain ⟨bytes, s₁, hlook, hrest⟩ := of_run_bind h
    obtain ⟨hp, hread, rfl⟩ := look_eq_ok.mp hlook
    cases hdecode : Text.Utf8.decode bytes with
    | ok found =>
      rw [hdecode] at hrest
      cases hrest
      exact ⟨hp, ⟨bytes, hread, hdecode⟩, rfl⟩
    | error e =>
      rw [hdecode] at hrest
      cases hrest
  · rintro ⟨hp, ⟨bytes, hread, hdecode⟩, rfl⟩
    refine (bind_of_ok (look_eq_ok.mpr ⟨hp, hread, rfl⟩)).trans ?_
    rw [hdecode]
    rfl

end Action
end Raml
