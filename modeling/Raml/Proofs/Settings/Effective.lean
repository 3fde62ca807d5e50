import Raml.Proofs.Settings.File
import Raml.Settings.Layers

/-!
# Settings in effect

The settings of the user and the file of the project are both looked up on the disk on which the
folder of the settings is there, and nothing else is looked at but the surroundings. `InEffect` puts
together what decides about the settings in effect; it holds of what a session finds
(`of_effective`), and what it holds of is found (`exists_effective`). Saving settings of the user
leaves the file of the project alone, for that has another name.
-/

namespace Raml.Settings

variable {s t : Session} {d d' : Disk} {v c : Settings} {o : Overrides}

/-! ## The file of the project -/

/-- The file of the settings for the folder where a session starts. -/
def projectIn (d : Disk) : Path := ⟨"/", d.home ++ ["ramlkit.json"]⟩

/-- Whether entries are those of the settings for the folder where a session starts. -/
inductive HoldsProject (d : Disk) (project : Option (List (Value × Value))) : Prop where
  | file {es : List (Value × Value)} (isFile : d.isFile (projectIn d) = true)
    (object : d.HasObject (projectIn d) es) (eq : project = some es)
  | none (isFile : d.isFile (projectIn d) = false) (eq : project = none)

/-- The settings of the project are those in the file in the folder of the session, if it is there. -/
theorem loadProject_eq (s : Session) : loadProject s = (do
    if ← Action.isFile (projectIn s.world.disk) then
      return some (← readObject "project config" (projectIn s.world.disk))
    else return none : Action _) s := rfl

/-- Loading the settings of the project brings what its file holds. -/
theorem of_loadProject {project : Option (List (Value × Value))}
    (h : loadProject s = .ok project t) :
    (projectIn s.world.disk).IsPlain ∧ HoldsProject s.world.disk project ∧
      s.Reaches s.world.disk t := by
  rw [loadProject_eq] at h
  obtain ⟨b, s₁, hisFile, hrest⟩ := of_run_bind h
  obtain ⟨hplain, hb, rfl⟩ := Action.isFile_eq_ok.mp hisFile
  refine ⟨hplain, ?_⟩
  -- a project without a file gives nothing
  cases b with
  | true =>
    obtain ⟨es, s₂, hread, hreturn⟩ := of_run_bind hrest
    obtain ⟨-, hobject, rfl⟩ := readObject_eq_ok.mp hread
    cases hreturn
    exact ⟨.file hb hobject rfl, (Session.reaches_noting ..).stay (Session.reaches_noting ..)⟩
  | false =>
    cases hrest
    exact ⟨.none hb rfl, Session.reaches_noting ..⟩

/-- If the file of the project can be read, its settings are loaded. -/
theorem exists_loadProject {project : Option (List (Value × Value))}
    (hplain : (projectIn s.world.disk).IsPlain) (h : HoldsProject s.world.disk project) :
    ∃ t, loadProject s = .ok project t ∧ s.Reaches s.world.disk t := by
  have hisFile : Action.isFile (projectIn s.world.disk) s =
      .ok (s.world.disk.isFile (projectIn s.world.disk)) (s.noting (projectIn s.world.disk)) :=
    Action.isFile_eq_ok.mpr ⟨hplain, rfl, rfl⟩
  rw [loadProject_eq, bind_of_ok hisFile]
  cases h with
  | file hb hobject heq =>
    have hread : readObject "project config" (projectIn s.world.disk) _ = _ := readObject_eq_ok.mpr
      ⟨hplain, show (s.noting (projectIn s.world.disk)).world.disk.HasObject _ _ from hobject, rfl⟩
    rw [hb, if_pos rfl, bind_of_ok hread, heq]
    exact ⟨_, rfl, (Session.reaches_noting ..).stay (Session.reaches_noting ..)⟩
  | none hb heq =>
    rw [hb, heq, if_neg Bool.false_ne_true]
    exact ⟨_, rfl, Session.reaches_noting ..⟩

/-! ## All layers -/

/-- Whether settings are those in effect in a session, looked up on the disk `d`. -/
structure InEffect (s : Session) (o : Overrides) (p : Path) (d : Disk) (user c : Settings) :
    Prop where
  finds : Finds s p d
  holds : Holds d (fileIn p) user
  isPlain : (projectIn d).IsPlain
  merged : ∃ project, HoldsProject d project ∧ merge user project s.environment o = .ok c

/-- Settings that were found out are in effect. -/
theorem of_effective (h : effective o s = .ok c t) :
    ∃ p d user, InEffect s o p d user c ∧ s.Reaches d t := by
  obtain ⟨user, s₁, hload, hrest⟩ := of_run_bind h
  obtain ⟨project, s₂, hproject, hmerge⟩ := of_run_bind hrest
  obtain ⟨p, d, hfinds, hholds, hreaches⟩ := of_load hload
  obtain ⟨hplain, hholdsProject, hstay⟩ := of_loadProject hproject
  have hreaches₂ := hreaches.stay hstay
  rw [hreaches.disk] at hplain hholdsProject
  have hrun : (do ofExcept (merge user project (← get).environment o) : Action Settings) s₂ =
      (ofExcept (merge user project s₂.environment o) : Action Settings) s₂ := rfl
  obtain ⟨hmerged, rfl⟩ := run_ofExcept_eq_ok.mp (hrun.symm.trans hmerge)
  rw [hreaches₂.environment] at hmerged
  exact ⟨p, d, user, ⟨hfinds, hholds, hplain, project, hholdsProject, hmerged⟩, hreaches₂⟩

/-- Settings that are in effect are found out. -/
theorem exists_effective {p : Path} (h : InEffect s o p d v c) :
    ∃ t, effective o s = .ok c t ∧ s.Reaches d t := by
  obtain ⟨project, hproject, hmerged⟩ := h.merged
  obtain ⟨s₁, hload, hreaches⟩ := exists_load h.finds h.holds
  obtain ⟨s₂, hloadProject, hstay⟩ := exists_loadProject (s := s₁)
    (by rw [hreaches.disk]; exact h.isPlain) (by rw [hreaches.disk]; exact hproject)
  have hreaches₂ := hreaches.stay hstay
  have hrun : (do ofExcept (merge v project (← get).environment o) : Action Settings) s₂ =
      (ofExcept (merge v project s₂.environment o) : Action Settings) s₂ := rfl
  refine ⟨s₂, ?_, hreaches₂⟩
  rw [effective, bind_of_ok hload, bind_of_ok hloadProject, hrun]
  exact run_ofExcept_eq_ok.mpr ⟨hreaches₂.environment ▸ hmerged, rfl⟩

/-! ## What saving settings of the user does to those in effect -/

/-- Saving settings does not move the home folder. -/
theorem home_of_saves {p : Path} (hsaves : Saves d p v d') : d'.home = d.home := by
  obtain ⟨text, -, hwrite⟩ := hsaves
  obtain ⟨names, -, -, rfl⟩ := Disk.write_eq_ok.mp hwrite
  rfl

/-- The file of the project is another one than that of the user. -/
theorem find_projectIn_of_saves {p : Path} {e : Entry} (hsaves : Saves d p v d') :
    d'.find (projectIn d) = .ok e ↔ d.find (projectIn d) = .ok e := by
  obtain ⟨text, -, hwrite⟩ := hsaves
  obtain ⟨names, hresolve, hentry, rfl⟩ := Disk.write_eq_ok.mp hwrite
  refine Disk.find_put_file hentry fun m hm hkey => ?_
  rw [fileIn_eq] at hresolve
  obtain ⟨above, rfl⟩ := Disk.exists_append_of_resolve (by decide) hresolve
  obtain ⟨above', rfl⟩ := Disk.exists_append_of_resolve (by decide) hm
  have huser := Disk.suffix_key above "config.json"
  have hproject := Disk.suffix_key above' "ramlkit.json"
  rw [hkey] at hproject
  exact absurd (List.suffix_of_suffix_length_le huser hproject (by decide)) (by decide)

theorem HoldsProject.of_saves {p : Path} {project : Option (List (Value × Value))}
    (h : HoldsProject d project) (hsaves : Saves d p v d') : HoldsProject d' project := by
  have hpath : projectIn d' = projectIn d := by rw [projectIn, home_of_saves hsaves, projectIn]
  have hfind {e : Entry} := find_projectIn_of_saves (e := e) hsaves
  have hisFile : d'.isFile (projectIn d) = d.isFile (projectIn d) := by
    rw [Bool.eq_iff_iff, Disk.isFile_iff, Disk.isFile_iff]
    exact exists_congr fun bytes => hfind
  cases h with
  | file isFile object heq =>
    obtain ⟨text, ⟨bytes, hbytes, htext⟩, hobject⟩ := object
    refine .file (by rw [hpath, hisFile, isFile]) ⟨text, ⟨bytes, ?_, htext⟩, hobject⟩ heq
    rw [hpath]
    exact Disk.read_eq_ok.mpr (hfind.mpr (Disk.read_eq_ok.mp hbytes))
  | none isFile heq => exact .none (by rw [hpath, hisFile, isFile]) heq

end Raml.Settings
