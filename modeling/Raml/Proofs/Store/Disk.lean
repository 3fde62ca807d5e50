import Mathlib.Data.List.Infix
import Raml.Proofs.Outcome
import Raml.Store.Disk

/-!
# What changes on a disk

Folders are made only where nothing stands, so that whoever makes them keeps every file:
`GainsFolders` says what such a step may do to each place, and `makeFolders_spec` that making a
folder with those above it does nothing else. A file is written to one place, which is that of no
folder. Paths are followed through folders only, so every path leads to the place to which it led
before; `find_put_file` draws from it what writing changes for those who read.
-/

namespace Raml.Disk

variable {d d' d'' : Disk} {p q : Path} {names : List String}

theorem entry?_put (d : Disk) (names : List String) (e : Entry) (other : List String) :
    entry? (d.put names e) other =
      if other.isEmpty then some .folder else if key other = key names then some e
      else d.entry? other := by
  rw [ entry?, entry?]
  split
  · rfl
  · split
    · next h => rw [h, put, Table.get?_set_self]
    · next h => exact Table.get?_set_of_ne h e d.entries

/-- Places with one key are one place, but for the topmost folder. -/
theorem entry?_congr {other : List String} (hkey : key other = key names) (hother : ¬other.isEmpty)
    (hnames : ¬names.isEmpty) : d.entry? other = d.entry? names := by
  rw [ entry?, entry?, if_neg hother, if_neg hnames, hkey]

theorem not_isEmpty_of_ne_folder (h : d.entry? names ≠ some .folder) : ¬names.isEmpty := by
  intro hempty
  rw [ entry?, if_pos hempty] at h
  exact h rfl

/-! ## Disks that gain folders -/

/-- The second disk has what the first one has, and besides only folders where nothing stood. -/
structure GainsFolders (d d' : Disk) : Prop where
  home : d'.home = d.home
  entry : ∀ names, d'.entry? names = d.entry? names ∨
    d.entry? names = none ∧ d'.entry? names = some .folder

namespace GainsFolders

theorem refl (d : Disk) : d.GainsFolders d := ⟨rfl, fun _ => .inl rfl⟩

/-- A folder stays a folder. -/
theorem folder (h : d.GainsFolders d') (hd : d.entry? names = some .folder) :
    d'.entry? names = some .folder := by
  rcases h.entry names with he | ⟨-, he⟩
  · rw [he, hd]
  · exact he

/-- No file is lost, changed or new. -/
theorem file_iff (h : d.GainsFolders d') {bytes : List UInt8} :
    d'.entry? names = some (.file bytes) ↔ d.entry? names = some (.file bytes) := by
  rcases h.entry names with he | ⟨hnone, hfolder⟩
  · rw [he]
  · simp [hnone, hfolder]

theorem trans (h : d.GainsFolders d') (h' : d'.GainsFolders d'') : d.GainsFolders d'' := by
  refine ⟨h'.home.trans h.home, fun names => ?_⟩
  rcases h.entry names with he | ⟨hnone, hfolder⟩
  · rw [← he]
    exact h'.entry names
  · exact .inr ⟨hnone, h'.folder hfolder⟩

end GainsFolders

/-- A folder that is put where nothing stood is gained. -/
theorem gainsFolders_put (h : d.entry? names = none) : d.GainsFolders (d.put names .folder) := by
  refine ⟨rfl, fun other => ?_⟩
  have hnames : ¬names.isEmpty := not_isEmpty_of_ne_folder (by rw [h]; nofun)
  rw [entry?_put]
  split
  · next hother => exact .inl (if_pos hother).symm
  · next hother =>
    split
    · next hkey => exact .inr ⟨(entry?_congr hkey hother hnames).trans h, rfl⟩
    · exact .inl rfl

/-! ## Following paths -/

/-- Paths lead as far on a disk with more folders. -/
theorem follow_mono
    (h : ∀ names, d.entry? names = some .folder → d'.entry? names = some .folder)
    {taken rest : List String} (hd : d.follow taken rest = .ok names) :
    d'.follow taken rest = .ok names := by
  induction rest generalizing taken with
  | nil => exact hd
  | cons name rest ih =>
    rw [follow] at hd
    split at hd
    · cases hd
    · cases hd
    · next hfolder =>
      rw [follow, h _ hfolder]
      dsimp only
      split at hd
      · cases hd
      · next hshort =>
        rw [if_neg hshort]
        exact ih hd

/-- A path leads to the same place on a disk that has all the folders of another. -/
theorem resolve_mono (hhome : d'.home = d.home)
    (h : ∀ names, d.entry? names = some .folder → d'.entry? names = some .folder)
    (hd : d.resolve p = .ok names) : d'.resolve p = .ok names := by
  rw [resolve] at hd ⊢
  split at hd
  · cases hd
  · next hshort =>
    rw [if_neg hshort, hhome]
    exact follow_mono h hd

/-- A path that ends in a name leads to a place of that name. -/
theorem exists_append_of_follow {name : String} (hname : name ≠ "..") {taken rest : List String}
    (h : d.follow taken (rest ++ [name]) = .ok names) : ∃ above, names = above ++ [name] := by
  induction rest generalizing taken with
  | nil =>
    rw [List.nil_append, follow] at h
    split at h
    · cases h
    · cases h
    · split at h
      · cases h
      · rw [follow] at h
        exact ⟨taken, (Except.ok.inj h).symm⟩
  | cons first rest ih =>
    rw [List.cons_append, follow] at h
    split at h
    · cases h
    · cases h
    · split at h
      · cases h
      · exact ih h

/-- A path that ends in a name leads to an entry with that name. -/
theorem exists_append_of_resolve {root name : String} {above : List String} (hname : name ≠ "..")
    (h : d.resolve ⟨root, above ++ [name]⟩ = .ok names) : ∃ above, names = above ++ [name] := by
  rw [resolve] at h
  split at h
  · cases h
  · exact exists_append_of_follow hname h

/-- The key of a place ends in its name. -/
theorem suffix_key (above : List String) (name : String) :
    name.toList <:+ (key (above ++ [name])).toList := by
  rw [key, String.toList_intercalate, List.map_append, List.map_singleton]
  induction above with
  | nil => exact by simp
  | cons first above ih =>
    obtain ⟨second, rest, h⟩ :
        ∃ second rest, above.map String.toList ++ [name.toList] = second :: rest :=
      List.exists_cons_of_ne_nil (by simp)
    rw [List.map_cons, List.cons_append, h, List.intercalate_cons_cons, ← h]
    exact ih.trans (List.suffix_append _ _)

/-! ## Looking at what is there -/

theorem find_eq_ok {e : Entry} :
    d.find p = .ok e ↔ ∃ names, d.resolve p = .ok names ∧ d.entry? names = some e := by
  rw [find, bind_eq_ok]
  refine exists_congr fun names => and_congr_right fun _ => ?_
  split
  · next h => simp [h]
  · next h => simp [h]

theorem isFolder_iff : d.isFolder p = true ↔ d.find p = .ok .folder := by
  rw [isFolder]
  split
  · next h => simp [h]
  · next h => simpa using h

theorem isFile_iff : d.isFile p = true ↔ ∃ bytes, d.find p = .ok (.file bytes) := by
  rw [isFile]
  split
  · next bytes h => simp [h]
  · next h => simpa using h

theorem read_eq_ok {bytes : List UInt8} : d.read p = .ok bytes ↔ d.find p = .ok (.file bytes) := by
  rw [read, bind_eq_ok]
  constructor
  · rintro ⟨e, he, hread⟩
    cases e with
    | folder => cases hread
    | file bytes =>
      cases hread
      exact he
  · exact fun h => ⟨_, h, rfl⟩

/-- What is found on a disk is found after it gained folders. -/
theorem GainsFolders.find (h : d.GainsFolders d') {e : Entry} (hd : d.find p = .ok e) :
    d'.find p = .ok e := by
  obtain ⟨names, hresolve, hentry⟩ := find_eq_ok.mp hd
  refine find_eq_ok.mpr ⟨names, resolve_mono h.home (fun _ => h.folder) hresolve, ?_⟩
  cases e with
  | folder => exact h.folder hentry
  | file bytes => exact h.file_iff.mpr hentry

/-! ## Making folders -/

/-- A folder is made where nothing stands, next to something that is a folder. -/
theorem makeFolder_eq_ok : d.makeFolder p = .ok d' ↔
    ∃ names, d.resolve p = .ok names ∧ d.entry? names = none ∧ d' = d.put names .folder := by
  rw [makeFolder, bind_eq_ok]
  refine exists_congr fun names => and_congr_right fun _ => ?_
  split
  · next h => simp [h]
  · next h => exact pure_eq_ok.trans ⟨fun hd => ⟨h, hd.symm⟩, fun hd => hd.2.symm⟩

/-- What the making of a folder does: nothing but that, and the folder is there. -/
structure Makes (d : Disk) (p : Path) (d' : Disk) : Prop where
  gains : d.GainsFolders d'
  isFolder : d'.isFolder p = true

theorem makeFolder_spec (h : d.makeFolder p = .ok d') : d.Makes p d' := by
  obtain ⟨names, hresolve, hnone, rfl⟩ := makeFolder_eq_ok.mp h
  have hgains : d.GainsFolders (d.put names .folder) := gainsFolders_put hnone
  have hresolve' := resolve_mono hgains.home (fun _ => hgains.folder) hresolve
  have hnames : ¬names.isEmpty := not_isEmpty_of_ne_folder (by rw [hnone]; nofun)
  refine ⟨hgains, isFolder_iff.mpr (find_eq_ok.mpr ⟨names, hresolve', ?_⟩)⟩
  rw [entry?_put, if_neg hnames, if_pos rfl]

theorem makeFolder_of_isFolder (h : d.isFolder p = true) : d.makeFolder p = .error .exists := by
  obtain ⟨names, hresolve, hentry⟩ := find_eq_ok.mp (isFolder_iff.mp h)
  rw [makeFolder, bind_of_eq_ok hresolve, hentry]

/-- A folder that is needed is made unless it is there. -/
theorem needFolder_spec (h : d.needFolder p = .ok d') : d.Makes p d' := by
  rw [needFolder] at h
  split at h
  · next hmake =>
    cases h
    exact makeFolder_spec hmake
  · split at h
    · next hfolder =>
      cases h
      exact ⟨.refl d, hfolder⟩
    · cases h

/-- Along the names, last one first: each folder is made once those above it are. -/
theorem needFolders_spec {root : String} {names : List String}
    (h : d.needFolders root names = .ok d') : d.Makes ⟨root, names.reverse⟩ d' := by
  induction names generalizing d' with
  | nil => exact needFolder_spec h
  | cons name above ih =>
    rw [needFolders] at h
    split at h
    · obtain ⟨d₁, habove, hneed⟩ := bind_eq_ok.mp h
      have hmakes := needFolder_spec hneed
      exact ⟨(ih habove).gains.trans hmakes.gains, hmakes.isFolder⟩
    · next hmake =>
      cases h
      exact makeFolder_spec hmake
    · split at h
      · next hfolder =>
        cases h
        exact ⟨.refl d, hfolder⟩
      · cases h

/-- Making a folder and those above it gains folders, and the folder is there in the end. -/
theorem makeFolders_spec (h : d.makeFolders p = .ok d') : d.Makes p d' := by
  have hmakes := needFolders_spec h
  rwa [List.reverse_reverse] at hmakes

/-- A folder that is there is not made again. -/
theorem makeFolders_of_isFolder (h : d.isFolder p = true) : d.makeFolders p = .ok d := by
  obtain ⟨root, names⟩ := p
  rw [← List.reverse_reverse names] at h ⊢
  rw [makeFolders, List.reverse_reverse]
  have hexists := makeFolder_of_isFolder h
  cases hnames : names.reverse with
  | nil =>
    rw [hnames, List.reverse_nil] at h hexists
    rw [needFolders, needFolder, hexists]
    exact if_pos h
  | cons name above =>
    rw [hnames] at h hexists
    rw [needFolders, hexists]
    exact if_pos h

/-! ## Writing files -/

/-- A file is written over a file or where nothing stands. -/
theorem write_eq_ok {bytes : List UInt8} : d.write p bytes = .ok d' ↔
    ∃ names, d.resolve p = .ok names ∧ d.entry? names ≠ some .folder ∧
      d' = d.put names (.file bytes) := by
  rw [write, bind_eq_ok]
  refine exists_congr fun names => and_congr_right fun _ => ?_
  split
  · next h => simp [h]
  · next h => exact pure_eq_ok.trans ⟨fun hd => ⟨h, hd.symm⟩, fun hd => hd.2.symm⟩

section Written

variable {bytes : List UInt8} (hnames : d.entry? names ≠ some .folder)

include hnames

theorem entry?_put_file_eq_folder {other : List String} :
    entry? (d.put names (.file bytes)) other = some .folder ↔ d.entry? other = some .folder := by
  rw [entry?_put]
  split
  · next hother => simp [ entry?, hother]
  · next hother =>
    split
    · next hkey =>
      rw [entry?_congr hkey hother (not_isEmpty_of_ne_folder hnames)]
      simp [hnames]
    · rfl

/-- Writing a file changes no way. -/
theorem resolve_put_file {m : List String} :
    (d.put names (.file bytes)).resolve q = .ok m ↔ d.resolve q = .ok m :=
  ⟨resolve_mono rfl fun _ => (entry?_put_file_eq_folder hnames).mp,
    resolve_mono rfl fun _ => (entry?_put_file_eq_folder hnames).mpr⟩

/-- What was written is found under the path of the file. -/
theorem find_put_file_self (hp : d.resolve p = .ok names) :
    (d.put names (.file bytes)).find p = .ok (.file bytes) := by
  refine find_eq_ok.mpr ⟨names, (resolve_put_file hnames).mpr hp, ?_⟩
  rw [entry?_put, if_neg (not_isEmpty_of_ne_folder hnames), if_pos rfl]

/-- What paths to other places lead to stays what it was. -/
theorem find_put_file {e : Entry} (hq : ∀ m, d.resolve q = .ok m → key m ≠ key names) :
    (d.put names (.file bytes)).find q = .ok e ↔ d.find q = .ok e := by
  simp only [find_eq_ok, resolve_put_file hnames]
  refine exists_congr fun m => and_congr_right fun hm => ?_
  rw [entry?_put, if_neg (hq m hm)]
  split
  · next hempty => rw [ entry?, if_pos hempty]
  · rfl

theorem isFolder_put_file :
    (d.put names (.file bytes)).isFolder q = true ↔ d.isFolder q = true := by
  simp only [isFolder_iff, find_eq_ok, resolve_put_file hnames, entry?_put_file_eq_folder hnames]

end Written

end Raml.Disk
