import Raml.Output.Basic
import Raml.Proofs.Settings.File
import Raml.Settings.Layers

/-!
# Steps that keep every file

A step may change two things on the disk: it makes the folder of the settings, or it writes a file.
Making the folder twice does nothing more than making it once, so `KeepsFiles`, by which nothing
else happens, can be told of steps one after another. `Keeps` says it of a step however that ends,
and `FailsKeeping` of one that may write a file but then does not fail any more. Saying something
is such a step without colours only: the terminal may refuse a text with marks (`tell_cases`).
-/

namespace Raml

open Session

/-! ## Sessions with the same files -/

/-- Whether nothing on the disk changes, unless the folder of the settings is made. -/
structure Session.KeepsFiles (s t : Session) : Prop where
  environment : t.environment = s.environment
  sharesFolder : t.sharesFolder = s.sharesFolder
  disk : t.world.disk = s.world.disk ∨
    ∃ p, Settings.folderFor s = .ok p ∧ s.world.disk.makeFolders p = .ok t.world.disk

namespace Session.KeepsFiles

variable {s t u : Session}

/-- A session that got on with its disk unchanged has kept its files. -/
theorem of_reaches (h : s.Reaches s.world.disk t) : s.KeepsFiles t :=
  ⟨h.environment, h.sharesFolder, .inl h.disk⟩

theorem refl (s : Session) : s.KeepsFiles s := of_reaches (.refl s)

theorem trans (h : s.KeepsFiles t) (h' : t.KeepsFiles u) : s.KeepsFiles u := by
  refine ⟨h'.environment.trans h.environment, h'.sharesFolder.trans h.sharesFolder, ?_⟩
  have hfolder := Settings.folderFor_congr h.environment h.sharesFolder
  rcases h'.disk with hstay | ⟨q, hq, hmake⟩
  · rw [hstay]
    exact h.disk
  · rw [hfolder] at hq
    rcases h.disk with hdisk | ⟨p, hp, hmade⟩
    · exact .inr ⟨q, hq, hdisk ▸ hmake⟩
    · -- it is the same folder, and it is there
      obtain rfl := Except.ok.inj (hp.symm.trans hq)
      have hagain := Disk.makeFolders_of_isFolder (Disk.makeFolders_spec hmade).isFolder
      rw [← Except.ok.inj (hagain.symm.trans hmake)]
      exact .inr ⟨p, hp, hmade⟩

/-- No file is lost, changed or new; a folder may stand where nothing stood. -/
theorem gainsFolders (h : s.KeepsFiles t) : s.world.disk.GainsFolders t.world.disk := by
  rcases h.disk with hdisk | ⟨p, -, hmade⟩
  · rw [hdisk]
    exact .refl _
  · exact (Disk.makeFolders_spec hmade).gains

end Session.KeepsFiles

/-! ## Steps one after another -/

/-- Whether a step keeps the files, however it ends. -/
structure Keeps {ε α : Type} (m : EStateM ε Session α) : Prop where
  ok : ∀ {s t a}, m s = .ok a t → s.KeepsFiles t
  error : ∀ {s t e}, m s = .error e t → s.KeepsFiles t

/-- Whether a step keeps the files if it fails. -/
def FailsKeeping {ε α : Type} (m : EStateM ε Session α) : Prop :=
  ∀ s t e, m s = .error e t → s.KeepsFiles t

/-- Whether a step does not fail. -/
def NeverFails {ε α : Type} (m : EStateM ε Session α) : Prop := ∀ s t e, m s ≠ .error e t

section Steps

variable {ε α β : Type} {m : EStateM ε Session α} {f : α → EStateM ε Session β}

namespace Keeps

theorem pure (a : α) : Keeps (pure a : EStateM ε Session α) where
  ok h := by
    cases h
    exact .refl _
  error h := nomatch h

theorem throw (e : ε) : Keeps (throw e : EStateM ε Session α) where
  ok h := nomatch h
  error h := by
    cases h
    exact .refl _

theorem get : Keeps (get : EStateM ε Session Session) where
  ok h := by
    cases h
    exact .refl _
  error h := nomatch h

theorem ofExcept (x : Except ε α) : Keeps (ofExcept x : EStateM ε Session α) := by
  cases x with
  | ok a => exact .pure a
  | error e => exact .throw e

theorem modify {g : Session → Session} (h : ∀ s : Session, s.Reaches s.world.disk (g s)) :
    Keeps (modify g : EStateM ε Session PUnit) where
  ok hrun := by
    cases hrun
    exact .of_reaches (h _)
  error hrun := nomatch hrun

/-- A sequence of steps that keep the files keeps them. -/
theorem bind (hm : Keeps m) (hf : ∀ a, Keeps (f a)) : Keeps (m >>= f) where
  ok h := by
    obtain ⟨a, s₁, hfirst, hsecond⟩ := of_run_bind h
    exact (hm.ok hfirst).trans ((hf a).ok hsecond)
  error h := by
    rcases of_run_bind_error h with hfirst | ⟨a, s₁, hfirst, hsecond⟩
    · exact hm.error hfirst
    · exact (hm.ok hfirst).trans ((hf a).error hsecond)

/-- What keeps the files always keeps them on failure. -/
theorem failsKeeping (h : Keeps m) : FailsKeeping m := fun _ _ _ => h.error

end Keeps

/-- What comes before a step that may write keeps the files. -/
theorem FailsKeeping.bind (hm : Keeps m) (hf : ∀ a, FailsKeeping (f a)) :
    FailsKeeping (m >>= f) := by
  intro s t e h
  rcases of_run_bind_error h with hfirst | ⟨a, s₁, hfirst, hsecond⟩
  · exact hm.error hfirst
  · exact (hm.ok hfirst).trans (hf a _ _ _ hsecond)

/-- What would come after a failure does not count. -/
theorem failsKeeping_throw_bind (e : ε) (f : α → EStateM ε Session β) :
    FailsKeeping (throw e >>= f) := by
  intro s t e' h
  cases h
  exact .refl _

/-- What comes after a step that may write does not fail. -/
theorem FailsKeeping.before (hm : FailsKeeping m) (hf : ∀ a, NeverFails (f a)) :
    FailsKeeping (m >>= f) := by
  intro s t e h
  rcases of_run_bind_error h with hfirst | ⟨a, s₁, -, hsecond⟩
  · exact hm _ _ _ hfirst
  · exact absurd hsecond (hf a _ _ _)

end Steps

/-! ## The steps of a session -/

namespace Action

variable {α : Type} (p : Path)

theorem keeps_look (f : Disk → Except FileFault α) : Keeps (look p f) where
  ok h := by
    obtain ⟨-, -, rfl⟩ := look_eq_ok.mp h
    exact .of_reaches (reaches_noting ..)
  error h := by
    rw [of_look_error h]
    exact .of_reaches (reaches_noting ..)

theorem keeps_textAt : Keeps (textAt p) := by
  refine (keeps_look p _).bind fun bytes => ?_
  split
  · exact .pure _
  · exact .throw _

theorem keeps_write (text : String) : Keeps (write text) := .modify fun _ => ⟨rfl, rfl, rfl⟩

theorem keeps_remark (text : String) : Keeps (remark text) := .modify fun _ => ⟨rfl, rfl, rfl⟩

theorem keeps_load (settings : FetchSettings) (step : Access → Load α) :
    Keeps (load settings step) := by
  refine Keeps.get.bind fun s => ?_
  dsimp only
  split
  all_goals
    refine Keeps.bind (.modify ?_) fun _ => .pure _
    exact fun _ => ⟨rfl, rfl, rfl⟩

/-- A disk that cannot be changed stays. -/
theorem failsKeeping_change (f : Disk → Except FileFault Disk) : FailsKeeping (change p f) := by
  intro s t e h
  rw [of_change_error h]
  exact .of_reaches (reaches_noting ..)

end Action

namespace Settings

/-- The folder of the settings may be made, which changes no file. -/
theorem keeps_folder : Keeps folder where
  ok h := by
    obtain ⟨hfor, -, d, hmade, rfl⟩ := folder_eq_ok.mp h
    exact ⟨rfl, rfl, .inr ⟨_, hfor, hmade⟩⟩
  error {s t e} h := by
    have hrun : folder s = (do
        let p ← ofExcept (folderFor s)
        Action.makeFolders p
        return p : Action Path) s := rfl
    rw [hrun] at h
    refine FailsKeeping.bind (.ofExcept _) (fun p => ?_) _ _ _ h
    exact FailsKeeping.before (Action.failsKeeping_change _ _) fun _ _ _ _ hpure => nomatch hpure

theorem keeps_userFile : Keeps userFile := keeps_folder.bind fun _ => .pure _

theorem keeps_readObject (label : String) (p : Path) : Keeps (readObject label p) := by
  refine (Action.keeps_textAt p).bind fun text => ?_
  split
  · exact .pure _
  · exact .throw _
  · exact .throw _
  · exact .throw _

/-- Loading settings changes no file. -/
theorem keeps_load : Keeps load := by
  refine keeps_userFile.bind fun p => (Action.keeps_look p _).bind fun b => ?_
  split
  · exact (keeps_readObject _ p).bind fun es => .ofExcept _
  · exact .pure _

theorem keeps_loadProject : Keeps loadProject := by
  refine Keeps.get.bind fun s => (Action.keeps_look _ _).bind fun b => ?_
  split
  · exact (keeps_readObject _ _).bind fun es => .pure _
  · exact .pure _

theorem keeps_effective (o : Overrides) : Keeps (effective o) :=
  keeps_load.bind fun _ => keeps_loadProject.bind fun _ => Keeps.get.bind fun _ => .ofExcept _

/-- Settings that cannot be saved leave the old ones. -/
theorem failsKeeping_save (v : Settings) : FailsKeeping (save v) := by
  intro s t e h
  rcases of_run_bind_error h with hfile | ⟨q, s₁, hfile, hrest⟩
  · exact keeps_userFile.error hfile
  · refine (keeps_userFile.ok hfile).trans ?_
    obtain ⟨p, hfolder, rfl⟩ := userFile_eq_ok.mp hfile
    obtain ⟨-, -, d, hmade, rfl⟩ := folder_eq_ok.mp hfolder
    rcases of_run_bind_error hrest with htext | ⟨text, s₂, hrun, hreplace⟩
    · exact (Keeps.ofExcept _).error htext
    · obtain ⟨-, rfl⟩ := run_ofExcept_eq_ok.mp hrun
      exact .of_reaches (of_replaceFile_error (Disk.makeFolders_spec hmade).isFolder hreplace)

end Settings

/-! ## Output -/

namespace Output

variable (o : Output)

/-- Nothing else changes when something is said, and without colours it always can be. -/
theorem tell_cases (n : Notice) (s : Session) :
    (∃ t, o.tell n s = .ok () t ∧ s.Reaches s.world.disk t) ∨
      o.colours = true ∧ o.tell n s = .error .encoding s := by
  -- only a terminal with colours interprets a notice, and it may fail to
  cases hmutes : o.mutes n with
  | true => exact .inl ⟨s, by simp only [tell, hmutes]; rfl, .refl s⟩
  | false =>
    cases hcolours : o.colours with
    | false =>
      have hrun : o.tell n s = Action.remark n.plain s := by
        simp only [tell, hmutes, hcolours]
        rfl
      exact .inl ⟨_, hrun, rfl, rfl, rfl⟩
    | true =>
      have hrun : o.tell n s =
          (s.terminal n.marked).elim (throw .encoding) Action.remark s := by
        rw [tell, hmutes, hcolours]
        simp only [bind, EStateM.bind, get, getThe, MonadStateOf.get, EStateM.get, Bool.not_false,
          if_true]
        cases s.terminal n.marked <;> rfl
      rw [hrun]
      cases s.terminal n.marked with
      | some shown => exact .inl ⟨_, rfl, rfl, rfl, rfl⟩
      | none => exact .inr ⟨rfl, rfl⟩

variable {o} in
/-- Without colours, a notice is always said. -/
theorem exists_tell (hplain : o.colours = false) (n : Notice) (s : Session) :
    ∃ t, o.tell n s = .ok () t ∧ s.Reaches s.world.disk t :=
  (o.tell_cases n s).resolve_right fun h => absurd h.1 (hplain ▸ Bool.false_ne_true)

variable {o} in
theorem neverFails_tell (hplain : o.colours = false) (n : Notice) : NeverFails (o.tell n) := by
  intro s t e h
  obtain ⟨t', hrun, -⟩ := exists_tell hplain n s
  cases hrun.symm.trans h

variable {o} in
theorem reaches_of_tell {n : Notice} {s t : Session} (h : o.tell n s = .ok () t) :
    s.Reaches s.world.disk t := by
  rcases o.tell_cases n s with ⟨t', hrun, hreaches⟩ | ⟨-, hrun⟩
  · cases hrun.symm.trans h
    exact hreaches
  · cases hrun.symm.trans h

variable {o} in
/-- A notice that cannot be shown leaves the disk alone. -/
theorem reaches_of_tell_error {n : Notice} {s t : Session} {e : Error}
    (h : o.tell n s = .error e t) : s.Reaches s.world.disk t := by
  rcases o.tell_cases n s with ⟨t', hrun, -⟩ | ⟨-, hrun⟩
  · cases hrun.symm.trans h
  · cases hrun.symm.trans h
    exact .refl s

theorem keeps_tell (n : Notice) : Keeps (o.tell n) where
  ok h := .of_reaches (reaches_of_tell h)
  error h := .of_reaches (reaches_of_tell_error h)

theorem keeps_writeLines (lines : List (Except Error String)) : Keeps (writeLines lines) := by
  induction lines with
  | nil => exact .pure _
  | cons line rest ih =>
    exact (Keeps.ofExcept line).bind fun _ => (Action.keeps_write _).bind fun _ => ih

theorem keeps_present (v : Value) : Keeps (o.present v) := by
  rw [present]
  split
  · exact (Keeps.ofExcept _).bind fun _ => Action.keeps_write _
  · exact (Keeps.ofExcept _).bind fun _ => Action.keeps_write _
  · exact keeps_writeLines _

theorem keeps_presentSheet (s : Sheet) : Keeps (o.presentSheet s) := by
  rw [presentSheet]
  split
  · exact (Keeps.ofExcept _).bind fun _ => Action.keeps_write _
  · exact keeps_writeLines _

/-- A result that cannot be written to its file leaves the files alone. -/
theorem failsKeeping_writeTo (file : String) (v : Value) : FailsKeeping (writeTo file v) :=
  .bind (.ofExcept _) fun _ => Action.failsKeeping_change _ _

theorem failsKeeping_respond (v : Value) : FailsKeeping (o.respond v) := by
  rw [respond]
  split
  · split
    · exact (o.keeps_present v).failsKeeping
    · exact failsKeeping_writeTo _ v
  · exact (o.keeps_present v).failsKeeping

end Output
end Raml
