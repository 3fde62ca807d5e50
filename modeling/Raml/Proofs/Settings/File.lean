import Raml.Proofs.Json.Written
import Raml.Proofs.Session.Steps
import Raml.Proofs.Settings.Key
import Raml.Proofs.Store.Disk
import Raml.Proofs.Text.Utf8
import Raml.Settings.File

/-!
# Settings kept in files

Where the settings of the user lie is known from the surroundings, and the folder is made before
anything is looked up in it: `Finds` tells the disk on which the settings are then looked up. The
file on it decides what is loaded (`load_eq_ok`), and looking twice finds the same. What is saved is
what is loaded afterwards (`keeps_of_save`): the text of a file with settings is read as the value
that was written, and the value as the settings.
-/

namespace Raml

open Session

/-- Whether a path leads to a file with the object that has the given entries. -/
def Disk.HasObject (d : Disk) (p : Path) (es : List (Value × Value)) : Prop :=
  ∃ text, d.HasText p text ∧ Json.read text = .ok (.map es)

namespace Settings

/-! ## The text of a file with settings -/

theorem isJson_toValue (s : Settings) : Json.IsJson s.toValue := by
  have hfetch : Json.IsJson s.fetch.toValue :=
    .map (t := [("timeout", .float s.fetch.timeout),
      ("follow_redirects", .bool s.fetch.followRedirects), ("verify_ssl", .bool s.fetch.verifySsl)])
      (by simp [Table.Distinct, Table.names]) (by simp [Json.IsJson.float, Json.IsJson.bool])
  have houtput : Json.IsJson s.output.toValue :=
    .map (t := [("format", .str s.output.format)]) (by simp [Table.Distinct, Table.names])
      (by simp [Json.IsJson.str])
  exact .map (t := [("fetch", s.fetch.toValue), ("output", s.output.toValue)])
    (by simp [Table.Distinct, Table.names]) (by simp [hfetch, houtput])

/-- Settings can be written, and what is written is read as what it was. -/
theorem exists_fileText (s : Settings) :
    ∃ text, s.fileText = .ok text ∧ Json.read text = .ok s.toValue := by
  obtain ⟨text, hwrite, hread⟩ :=
    Json.exists_write Json.Alphabet.escapesControls_ascii s.isJson_toValue
  refine ⟨text ++ "\n", ?_, hread "\n" (Json.areBlanks_newline 0)⟩
  rw [fileText, hwrite]
  rfl

/-! ## Where the settings lie -/

variable {s t u : Session} {d d' : Disk} {p : Path} {e : Error} {v : Settings}

/-- The file of settings in a folder. -/
def fileIn (folder : Path) : Path := folder.join (Path.ofString "config.json")

/-- Whether the settings lie in the given folder, which is there on the disk `d`. -/
structure Finds (s : Session) (p : Path) (d : Disk) : Prop where
  folder : folderFor s = .ok p
  isPlain : p.IsPlain
  fileIsPlain : (fileIn p).IsPlain
  made : s.world.disk.makeFolders p = .ok d

/-- Where the settings are kept depends on the environment and on the kind of the system alone. -/
theorem folderFor_congr (henvironment : t.environment = s.environment)
    (hshares : t.sharesFolder = s.sharesFolder) : folderFor t = folderFor s := by
  rw [folderFor, folderFor, henvironment, hshares]

theorem fileIn_eq (folder : Path) :
    fileIn folder = ⟨folder.root, folder.names ++ ["config.json"]⟩ := by
  have hname : Path.ofString "config.json" = ⟨"", ["config.json"]⟩ := by decide
  rw [fileIn, hname]
  rfl

theorem parent_fileIn (folder : Path) : (fileIn folder).parent = folder := by
  rw [fileIn_eq, Path.parent, List.dropLast_concat]

/-- Once the settings are found they are found in the same place. -/
theorem Finds.again (h : Finds s p d) (hreaches : s.Reaches d t) : Finds t p d where
  folder := (folderFor_congr hreaches.environment hreaches.sharesFolder).trans h.folder
  isPlain := h.isPlain
  fileIsPlain := h.fileIsPlain
  made := by
    rw [hreaches.disk]
    exact Disk.makeFolders_of_isFolder (Disk.makeFolders_spec h.made).isFolder

/-- The folder of the settings is made when it is asked for. -/
theorem folder_eq_ok : folder s = .ok p t ↔ folderFor s = .ok p ∧ p.IsPlain ∧
    ∃ d, s.world.disk.makeFolders p = .ok d ∧ t = s.changing p d := by
  have hrun : folder s = (do
      let p ← ofExcept (folderFor s)
      Action.makeFolders p
      return p : Action Path) s := rfl
  rw [hrun]
  constructor
  · intro h
    obtain ⟨q, s₁, hfor, hrest⟩ := of_run_bind h
    obtain ⟨hq, rfl⟩ := run_ofExcept_eq_ok.mp hfor
    obtain ⟨_, s₂, hmake, hreturn⟩ := of_run_bind hrest
    cases hreturn
    exact ⟨hq, Action.change_eq_ok.mp hmake⟩
  · rintro ⟨hfor, hmake⟩
    refine (bind_of_ok (ofExcept_of_ok hfor)).trans ?_
    exact bind_of_ok (Action.change_eq_ok.mpr hmake)

theorem userFile_eq_ok {q : Path} :
    userFile s = .ok q t ↔ ∃ p, folder s = .ok p t ∧ q = fileIn p := by
  constructor
  · intro h
    obtain ⟨p, s₁, hfolder, h⟩ := of_run_bind h
    cases h
    exact ⟨p, hfolder, rfl⟩
  · rintro ⟨p, hfolder, rfl⟩
    exact bind_of_ok hfolder

/-! ## What is loaded -/

theorem readObject_eq_ok {label : String} {es : List (Value × Value)} :
    readObject label p s = .ok es t ↔ p.IsPlain ∧ s.world.disk.HasObject p es ∧ t = s.noting p := by
  -- every other way to end, by the text or by what it says, is an error
  constructor
  · intro h
    obtain ⟨text, s₁, hrun, hrest⟩ := of_run_bind h
    obtain ⟨hp, htext, rfl⟩ := Action.textAt_eq_ok.mp hrun
    cases hread : Json.read text with
    | error f =>
      rw [hread] at hrest
      cases f <;> cases hrest
    | ok w =>
      rw [hread] at hrest
      cases w with
      | map found =>
        cases hrest
        exact ⟨hp, ⟨text, htext, hread⟩, rfl⟩
      | _ => cases hrest
  · rintro ⟨hp, ⟨text, htext, hread⟩, rfl⟩
    refine (bind_of_ok (Action.textAt_eq_ok.mpr ⟨hp, htext, rfl⟩)).trans ?_
    rw [hread]
    rfl

/-- Whether settings are those in a file; the usual ones are those in a file that is not there. -/
inductive Holds (d : Disk) (p : Path) (v : Settings) : Prop where
  | file {es : List (Value × Value)} (isFile : d.isFile p = true) (object : d.HasObject p es)
    (read : Settings.read (.map es) = .good v)
  | usual (isFile : d.isFile p = false) (eq : v = .usual)

/-- What is loaded is what the file holds, and nothing else changes than that its folder is made. -/
theorem of_load (h : load s = .ok v t) :
    ∃ p d, Finds s p d ∧ Holds d (fileIn p) v ∧ s.Reaches d t := by
  obtain ⟨q, s₁, hfile, hrest⟩ := of_run_bind h
  obtain ⟨p, hfolder, rfl⟩ := userFile_eq_ok.mp hfile
  obtain ⟨hfor, hplain, d, hmade, rfl⟩ := folder_eq_ok.mp hfolder
  obtain ⟨b, s₂, hisFile, hload⟩ := of_run_bind hrest
  obtain ⟨hfilePlain, hb, rfl⟩ := Action.isFile_eq_ok.mp hisFile
  have hreaches : s.Reaches d ((s.changing p d).noting (fileIn p)) :=
    (s.reaches_changing p d).stay (reaches_noting ..)
  refine ⟨p, d, ⟨hfor, hplain, hfilePlain, hmade⟩, ?_⟩
  -- the file is there and is read, or the usual settings hold
  cases b with
  | true =>
    obtain ⟨es, s₃, hread, hvalue⟩ := of_run_bind hload
    obtain ⟨-, hobject, rfl⟩ := readObject_eq_ok.mp hread
    obtain ⟨hvalue, rfl⟩ := run_ofExcept_eq_ok.mp hvalue
    rw [ofValue] at hvalue
    split at hvalue
    · next hgood =>
      cases hvalue
      exact ⟨.file hb hobject hgood, hreaches.stay (reaches_noting ..)⟩
    · cases hvalue
  | false =>
    cases hload
    exact ⟨.usual hb rfl, hreaches⟩

/-- What the file of the settings holds can be loaded. -/
theorem exists_load (hfinds : Finds s p d) (hholds : Holds d (fileIn p) v) :
    ∃ t, load s = .ok v t ∧ s.Reaches d t := by
  have hfile : userFile s = .ok (fileIn p) (s.changing p d) := userFile_eq_ok.mpr
    ⟨p, folder_eq_ok.mpr ⟨hfinds.folder, hfinds.isPlain, d, hfinds.made, rfl⟩, rfl⟩
  have hreaches : s.Reaches d ((s.changing p d).noting (fileIn p)) :=
    (s.reaches_changing p d).stay (reaches_noting ..)
  have hisFile : Action.isFile (fileIn p) (s.changing p d) =
      .ok (d.isFile (fileIn p)) ((s.changing p d).noting (fileIn p)) :=
    Action.isFile_eq_ok.mpr ⟨hfinds.fileIsPlain, rfl, rfl⟩
  rw [load, bind_of_ok hfile, bind_of_ok hisFile]
  cases hholds with
  | file hb hobject hread =>
    have hobject : readObject "global config" (fileIn p) _ = _ := readObject_eq_ok.mpr
      ⟨hfinds.fileIsPlain,
        show ((s.changing p d).noting (fileIn p)).world.disk.HasObject _ _ from hobject, rfl⟩
    rw [hb, if_pos rfl, bind_of_ok hobject, ofValue, hread]
    exact ⟨_, rfl, hreaches.stay (reaches_noting ..)⟩
  | usual hb heq =>
    rw [hb, heq, if_neg Bool.false_ne_true]
    exact ⟨_, rfl, hreaches⟩

/-! ## What is saved -/

/-- What saving settings does to the disk on which their folder is there. -/
def Saves (d : Disk) (p : Path) (v : Settings) (d' : Disk) : Prop :=
  ∃ text, v.fileText = .ok text ∧ d.write (fileIn p) (Text.Utf8.encode text) = .ok d'

/-- The file has a name of its own, so replacing it is writing it. -/
theorem replace_fileIn (d : Disk) (p : Path) (bytes : List UInt8) :
    d.replace (fileIn p) bytes = d.write (fileIn p) bytes := by
  have hname : (fileIn p).name = "config.json" := by rw [fileIn_eq, Path.name]; simp
  rw [Disk.replace, hname, if_neg (by decide)]

/-- Putting a file in the place of the old one, once the folder is there. -/
theorem replaceFile_eq_ok {text : String} (hfolder : s.world.disk.isFolder p = true) :
    Action.replaceFile (fileIn p) text s = .ok () t ↔ p.IsPlain ∧ (fileIn p).IsPlain ∧
      ∃ d', s.world.disk.write (fileIn p) (Text.Utf8.encode text) = .ok d' ∧
        t = (s.changing p s.world.disk).changing (fileIn p) d' := by
  have hmade := Disk.makeFolders_of_isFolder hfolder
  constructor
  · intro h
    obtain ⟨_, s₁, hfolders, hchange⟩ := of_run_bind h
    rw [parent_fileIn] at hfolders
    obtain ⟨hp, d, hd, rfl⟩ := Action.change_eq_ok.mp hfolders
    obtain rfl := Except.ok.inj (hd.symm.trans hmade)
    obtain ⟨hfile, d', hd', rfl⟩ := Action.change_eq_ok.mp hchange
    exact ⟨hp, hfile, d', (replace_fileIn ..).symm.trans hd', rfl⟩
  · rintro ⟨hp, hfile, d', hd', rfl⟩
    have hfolders :
        Action.makeFolders (fileIn p).parent s = .ok () (s.changing p s.world.disk) := by
      rw [parent_fileIn]
      exact Action.change_eq_ok.mpr ⟨hp, _, hmade, rfl⟩
    refine (bind_of_ok hfolders).trans (Action.change_eq_ok.mpr ⟨hfile, d', ?_, rfl⟩)
    exact (replace_fileIn ..).trans hd'

/-- A file that cannot be replaced is left as it is. -/
theorem of_replaceFile_error {text : String} (hfolder : s.world.disk.isFolder p = true)
    (h : Action.replaceFile (fileIn p) text s = .error e t) : s.Reaches s.world.disk t := by
  rcases of_run_bind_error h with hfolders | ⟨_, s₁, hfolders, hchange⟩
  · rw [Action.of_change_error hfolders]
    exact reaches_noting ..
  · rw [parent_fileIn] at hfolders
    obtain ⟨-, d, hd, rfl⟩ := Action.change_eq_ok.mp hfolders
    obtain rfl := Except.ok.inj (hd.symm.trans (Disk.makeFolders_of_isFolder hfolder))
    rw [Action.of_change_error hchange]
    exact (reaches_changing ..).stay (reaches_noting ..)

/-- Settings that were saved stand in the file where they are looked for. -/
theorem of_save (h : save v s = .ok () t) :
    ∃ p d d', Finds s p d ∧ Saves d p v d' ∧ s.Reaches d' t := by
  obtain ⟨q, s₁, hfile, hrest⟩ := of_run_bind h
  obtain ⟨p, hfolder, rfl⟩ := userFile_eq_ok.mp hfile
  obtain ⟨hfor, hplain, d, hmade, rfl⟩ := folder_eq_ok.mp hfolder
  obtain ⟨text, s₂, hrun, hreplace⟩ := of_run_bind hrest
  obtain ⟨htext, rfl⟩ := run_ofExcept_eq_ok.mp hrun
  obtain ⟨-, hfilePlain, d', hwrite, rfl⟩ :=
    (replaceFile_eq_ok (Disk.makeFolders_spec hmade).isFolder).mp hreplace
  exact ⟨p, d, d', ⟨hfor, hplain, hfilePlain, hmade⟩, ⟨text, htext, hwrite⟩, rfl, rfl, rfl⟩

variable (hsaves : Saves d p v d')

include hsaves

/-- What can be saved is saved, in the folder that is found. -/
theorem exists_save (hfinds : Finds s p d) : ∃ t, save v s = .ok () t ∧ s.Reaches d' t := by
  obtain ⟨text, htext, hwrite⟩ := hsaves
  have hfile : userFile s = .ok (fileIn p) (s.changing p d) := userFile_eq_ok.mpr
    ⟨p, folder_eq_ok.mpr ⟨hfinds.folder, hfinds.isPlain, d, hfinds.made, rfl⟩, rfl⟩
  have hfolder : (s.changing p d).world.disk.isFolder p = true :=
    (Disk.makeFolders_spec hfinds.made).isFolder
  have hreplace := (replaceFile_eq_ok hfolder).mpr
    ⟨hfinds.isPlain, hfinds.fileIsPlain, d', hwrite, rfl⟩
  rw [save, bind_of_ok hfile, bind_of_ok (ofExcept_of_ok htext)]
  exact ⟨_, hreplace, rfl, rfl, rfl⟩

/-- Where some settings can be saved others can be. -/
theorem exists_saves (new : Settings) : ∃ d', Saves d p new d' := by
  obtain ⟨_, -, hwrite⟩ := hsaves
  obtain ⟨names, hresolve, hentry, -⟩ := Disk.write_eq_ok.mp hwrite
  obtain ⟨text, htext, -⟩ := new.exists_fileText
  exact ⟨_, text, htext, Disk.write_eq_ok.mpr ⟨names, hresolve, hentry, rfl⟩⟩

theorem Finds.of_saves (hfinds : Finds s p d) (hreaches : s.Reaches d' t) : Finds t p d' where
  folder := (folderFor_congr hreaches.environment hreaches.sharesFolder).trans hfinds.folder
  isPlain := hfinds.isPlain
  fileIsPlain := hfinds.fileIsPlain
  made := by
    obtain ⟨text, -, hwrite⟩ := hsaves
    obtain ⟨names, -, hentry, rfl⟩ := Disk.write_eq_ok.mp hwrite
    rw [hreaches.disk]
    refine Disk.makeFolders_of_isFolder ((Disk.isFolder_put_file hentry).mpr ?_)
    exact (Disk.makeFolders_spec hfinds.made).isFolder

/-- **What was saved is there.** -/
theorem holds_of_saves : Holds d' (fileIn p) v := by
  obtain ⟨text, htext, hwrite⟩ := hsaves
  obtain ⟨names, hresolve, hentry, rfl⟩ := Disk.write_eq_ok.mp hwrite
  obtain ⟨text', htext', hread⟩ := v.exists_fileText
  obtain rfl := Except.ok.inj (htext'.symm.trans htext)
  have hfind : _ = Except.ok (Entry.file (Text.Utf8.encode text')) :=
    Disk.find_put_file_self hentry hresolve
  refine .file (Disk.isFile_iff.mpr ⟨_, hfind⟩)
    ⟨text', ⟨_, Disk.read_eq_ok.mpr hfind, ?_⟩, hread⟩ ?_
  · exact Text.Utf8.decode_encode text'
  · exact v.read_of_toValue

end Settings
end Raml
