import Raml.Proofs.Settings.Reported

/-!
# Which layer a setting comes from

All layers are put together before anything is read, so what counts is what stands in them for each
single setting: `Leaf.find?` looks that up, and each layer either has something there or leaves what
the layers below it have. Laying the file of the project over the settings of the user keeps to
this as long as its groups are mappings (`find?_overlayEntries`), and so does giving a setting from
outside of the files (`exists_assign?_eq`). From both follows when the settings in effect are given
settings (`effective_eq_ok_iff`). Nothing is asked there of what other layers have for a setting, or
of entries that are no settings.
-/

namespace Raml
namespace Settings

/-! ## Single settings -/

/-- The single settings. -/
inductive Leaf where
  | timeout
  | followRedirects
  | verifySsl
  | format

namespace Leaf

/-- The name of the group that a setting is in. -/
def group : Leaf → String
  | .format => "output"
  | _ => "fetch"

/-- The name that a setting has in its group. -/
def name : Leaf → String
  | .timeout => "timeout"
  | .followRedirects => "follow_redirects"
  | .verifySsl => "verify_ssl"
  | .format => "format"

/-- What entries have for a setting. -/
def find? (leaf : Leaf) (es : List (Value × Value)) : Option Value :=
  match Value.get? leaf.group es with
  | some (.map settings) => Value.get? leaf.name settings
  | _ => none

/-- A setting as a value. -/
def valueIn (c : Settings) : Leaf → Value
  | .timeout => .float c.fetch.timeout
  | .followRedirects => .bool c.fetch.followRedirects
  | .verifySsl => .bool c.fetch.verifySsl
  | .format => .str c.output.format

/-- What a value is as a setting. -/
def read : Leaf → Reader Value
  | .timeout => fun v => .float <$> Reader.double v
  | .followRedirects | .verifySsl => fun v => .bool <$> Reader.truth v
  | .format => fun v => .str <$> Reader.strictText v

/-- The value of a setting where none is given. -/
def usual (leaf : Leaf) : Value := leaf.valueIn .usual

variable {es : List (Value × Value)} {leaf : Leaf}

theorem group_eq (leaf : Leaf) : leaf.group = "fetch" ∨ leaf.group = "output" := by
  cases leaf with
  | format => exact .inr rfl
  | _ => exact .inl rfl

/-- A setting has a place of its own. -/
theorem eq_of_name_eq {leaf leaf' : Leaf} (h : leaf.name = leaf'.name) : leaf = leaf' := by
  cases leaf <;> cases leaf' <;> first | rfl | exact absurd h (by decide)

/-- What a setting is as a value is read as that setting. -/
theorem read_valueIn (c : Settings) (leaf : Leaf) :
    leaf.read (leaf.valueIn c) = .good (leaf.valueIn c) := by
  cases leaf <;> rfl

theorem valueIn_ne_map (c : Settings) (leaf : Leaf) (es : List (Value × Value)) :
    leaf.valueIn c ≠ .map es := by
  cases leaf <;> nofun

/-- There are four leaves. -/
theorem forall_iff {P : Leaf → Prop} :
    (∀ leaf, P leaf) ↔ P .timeout ∧ P .followRedirects ∧ P .verifySsl ∧ P .format := by
  constructor
  · exact fun h => ⟨h _, h _, h _, h _⟩
  · rintro ⟨htimeout, hfollow, hverify, hformat⟩ leaf
    cases leaf <;> assumption

theorem find?_eq {settings : List (Value × Value)}
    (h : Value.get? leaf.group es = some (.map settings)) :
    leaf.find? es = Value.get? leaf.name settings := by
  rw [find?, h]

theorem find?_eq_none (h : Value.get? leaf.group es = none) : leaf.find? es = none := by
  rw [find?, h]

/-- Each leaf is found among the entries of settings. -/
theorem find?_entries (c : Settings) (leaf : Leaf) :
    leaf.find? c.entries = some (leaf.valueIn c) := by
  cases leaf <;> simp [find?, entries, FetchSettings.toValue, OutputSettings.toValue, group, name,
    valueIn, Value.get?_cons_str]

end Leaf

/-- Whether entries have groups, or nothing, under the names of the groups. -/
def Grouped (es : List (Value × Value)) : Prop :=
  ∀ (leaf : Leaf) (v : Value), Value.get? leaf.group es = some v → ∃ settings, v = .map settings

/-! ## Reading setting by setting -/

section Reading

variable {c : Settings} {es : List (Value × Value)}

/-- A field that is not there is read like a value that is read as the usual one. -/
theorem readsField_iff {α : Type} {n : String} {usual a : α} {read : Reader α} {v : Value}
    (hv : read v = .good usual) :
    ReadsField es n usual read a ↔ read ((Value.get? n es).getD v) = .good a := by
  unfold ReadsField
  cases Value.get? n es with
  | none => simp [hv, eq_comm]
  | some w => simp

/-- A group that is not there has no settings. -/
theorem Grouped.exists_settings (h : Grouped es) (leaf : Leaf) :
    ∃ settings, (Value.get? leaf.group es).getD (.map []) = .map settings ∧
      ∀ other : Leaf, other.group = leaf.group →
        other.find? es = Value.get? other.name settings := by
  cases hget : Value.get? leaf.group es with
  | none => exact ⟨[], rfl, fun other hgroup => Leaf.find?_eq_none (hgroup ▸ hget)⟩
  | some v =>
    obtain ⟨settings, rfl⟩ := h leaf v hget
    exact ⟨settings, rfl, fun other hgroup => Leaf.find?_eq (hgroup ▸ hget)⟩

theorem Leaf.read_eq_good {leaf : Leaf} {v : Value} : leaf.read v = .good (leaf.valueIn c) ↔
    match leaf with
    | .timeout => Reader.double v = .good c.fetch.timeout
    | .followRedirects => Reader.truth v = .good c.fetch.followRedirects
    | .verifySsl => Reader.truth v = .good c.fetch.verifySsl
    | .format => Reader.strictText v = .good c.output.format := by
  cases leaf <;> simp [Leaf.read, Leaf.valueIn, Checked.map_eq_good]

/-- **Settings are read one by one,** each from what stands under its name in its group. -/
theorem read_eq_good_iff (h : Grouped es) : Settings.read (.map es) = .good c ↔
    ∀ leaf : Leaf, leaf.read ((leaf.find? es).getD leaf.usual) = .good (leaf.valueIn c) := by
  -- a group that is not there is read like an empty one, so both groups may be taken to be there
  obtain ⟨fetch, hfetch, hinFetch⟩ := h.exists_settings .timeout
  obtain ⟨output, houtput, hinOutput⟩ := h.exists_settings .format
  have hreadFetch : ReadsField es "fetch" .usual FetchSettings.read c.fetch ↔
      FetchSettings.read (.map fetch) = .good c.fetch := by
    rw [← hfetch]
    exact readsField_iff rfl
  have hreadOutput : ReadsField es "output" .usual OutputSettings.read c.output ↔
      OutputSettings.read (.map output) = .good c.output := by
    rw [← houtput]
    exact readsField_iff rfl
  have htimeout : Reader.double Leaf.timeout.usual = .good FetchSettings.usual.timeout := rfl
  have hfollow : Reader.truth Leaf.followRedirects.usual =
    .good FetchSettings.usual.followRedirects := rfl
  have hverify : Reader.truth Leaf.verifySsl.usual = .good FetchSettings.usual.verifySsl := rfl
  have hformat : Reader.strictText Leaf.format.usual = .good OutputSettings.usual.format := rfl
  rw [read_eq_good, hreadFetch, hreadOutput, read_fetch_eq_good, read_output_eq_good,
    readsField_iff htimeout, readsField_iff hfollow, readsField_iff hverify, readsField_iff hformat]
  rw [Leaf.forall_iff, hinFetch .timeout rfl, hinFetch .followRedirects rfl,
    hinFetch .verifySsl rfl, hinOutput .format rfl]
  simp only [Leaf.read_eq_good, and_assoc]
  rfl

/-- A field that is there has been read. -/
theorem ReadsField.read_eq_good {α : Type} {n : String} {usual a : α} {read : Reader α} {v : Value}
    (h : ReadsField es n usual read a) (hv : Value.get? n es = some v) : read v = .good a := by
  rcases h with ⟨hnone, -⟩ | ⟨w, hw, hread⟩
  · cases hnone.symm.trans hv
  · rwa [← Option.some.inj (hw.symm.trans hv)]

/-- Entries that can be read as settings have groups in the places of groups. -/
theorem grouped_of_read (h : Settings.read (.map es) = .good c) : Grouped es := by
  obtain ⟨hfetch, houtput⟩ := read_eq_good.mp h
  intro leaf v hv
  rcases leaf.group_eq with hgroup | hgroup
  · exact of_read_group (hfetch.read_eq_good (hgroup ▸ hv))
  · exact of_read_group (houtput.read_eq_good (hgroup ▸ hv))

end Reading

/-! ## The file of the project -/

section Project

variable {c user : Settings} {given : List (Value × Value)}

/-- What is no group gives way as a whole. -/
theorem overlay_of_ne_map {b v : Value} (h : ∀ es, b ≠ .map es) : overlay b v = v := by
  cases v with
  | map es =>
    rw [overlay]
    exact h
  | _ => simp [overlay]

/-- What an object has for a setting counts, and what it does not have is that of the user. -/
theorem find?_overlayEntries (hjson : Json.IsJson (.map given)) (hgrouped : Grouped given)
    (user : Settings) (leaf : Leaf) :
    leaf.find? (overlayEntries user.entries given) =
      some ((leaf.find? given).getD (leaf.valueIn user)) := by
  obtain ⟨settings, hsettings⟩ : HasGroup user.entries leaf.group :=
    hasGroup_entries user leaf.group_eq
  have huser : Value.get? leaf.name settings = some (leaf.valueIn user) :=
    (Leaf.find?_eq hsettings).symm.trans (Leaf.find?_entries user leaf)
  cases hjson with
  | @map t hdistinct ht =>
    have hget := get?_overlayEntries hdistinct leaf.group user.entries
    have hgiven := get?_map_str leaf.group t
    cases hv : t.get? leaf.group with
    | none =>
      rw [hv, hsettings] at hget
      rw [hv] at hgiven
      rw [Leaf.find?_eq hget, Leaf.find?_eq_none hgiven, huser]
      rfl
    | some v =>
      rw [hv, hsettings] at hget
      rw [hv] at hgiven
      obtain ⟨own, rfl⟩ := hgrouped leaf v hgiven
      -- the group is an object too, so its names are told apart as well
      cases ht _ (Table.mem_of_get? hv) with
      | @map inner hinner =>
        have hlaid := get?_overlayEntries hinner leaf.name settings
        simp only [Option.map_some, Option.getD_some, overlay] at hget
        rw [Leaf.find?_eq hget, Leaf.find?_eq hgiven, hlaid, get?_map_str, huser]
        cases inner.get? leaf.name with
        | none => rfl
        | some w => simp [overlay_of_ne_map (leaf.valueIn_ne_map user)]

end Project

/-! ## What is given from outside of the files -/

section Outside

variable {c : Settings} {environment : Table String} {o : Overrides} {es : List (Value × Value)}

/-- What a command gives for a setting. -/
def Leaf.inCommand (o : Overrides) : Leaf → Option Value
  | .timeout => o.timeout
  | .format => o.format.map .str
  | _ => none

/-- What the variables give for a setting. -/
def Leaf.inVariables (environment : Table String) : Leaf → Option Value
  | .timeout =>
    ((given? timeoutVariable environment).bind Numeral.floating?).map fun x => .float x.toFloat
  | .format => (given? formatVariable environment).map .str
  | _ => none

/-- Giving a setting a value keeps the groups, and what is there for all others. -/
theorem exists_assign?_eq (leaf : Leaf) (v : Option Value)
    (h : ∀ l : Leaf, HasGroup es l.group) :
    ∃ r, assign? leaf.group leaf.name v es = .ok r ∧ (∀ l : Leaf, HasGroup r l.group) ∧
      ∀ l : Leaf, l.find? r = if l.name = leaf.name then v.or (l.find? es) else l.find? es := by
  cases v with
  | none => exact ⟨es, rfl, h, fun l => by simp⟩
  | some v =>
    obtain ⟨settings, hsettings⟩ := h leaf
    obtain ⟨r, hr, hgroups⟩ := assign_of_hasGroup ⟨settings, hsettings⟩ leaf.name v
    refine ⟨r, hr, fun l => (hgroups _).mpr (h l), fun l => ?_⟩
    rw [assign, hsettings] at hr
    obtain rfl := Except.ok.inj hr
    -- leaves of another group are not touched, and of the same group only the one of that name
    by_cases hgroup : l.group = leaf.group
    · have hin : Value.get? l.group
          (Value.insert (.str leaf.group) (.map (Value.insert (.str leaf.name) v settings)) es) =
          some (.map (Value.insert (.str leaf.name) v settings)) := by
        rw [Value.get?_insert, if_pos hgroup]
      rw [Leaf.find?_eq hin, Leaf.find?_eq (hgroup ▸ hsettings), Value.get?_insert]
      rfl
    · have hname : l.name ≠ leaf.name := fun hname => hgroup (by rw [Leaf.eq_of_name_eq hname])
      rw [if_neg hname, Leaf.find?, Leaf.find?, Value.get?_insert, if_neg hgroup]

/-- The timeout in the environment is taken if it is a number. -/
theorem mapM_timeoutOf_eq_ok {v : Option Value} :
    (given? timeoutVariable environment).mapM timeoutOf = .ok v ↔
      GivesNumber environment ∧ v = Leaf.timeout.inVariables environment := by
  unfold GivesNumber Leaf.inVariables
  cases given? timeoutVariable environment with
  | none =>
    have hstep : Option.mapM timeoutOf (none : Option String) = .ok none := rfl
    simp [hstep, eq_comm]
  | some text =>
    cases hnumeral : Numeral.floating? text with
    | none => simp [Option.mapM, timeoutOf, hnumeral]
    | some x => simp [Option.mapM, timeoutOf, hnumeral, eq_comm]

/-- What is given from outside of the files goes before what is in them. -/
theorem exists_layers_eq {user : Settings} {project : Option (List (Value × Value))}
    (hnumber : GivesNumber environment) (h : ∀ l : Leaf, HasGroup (laid user project) l.group) :
    ∃ r, layers user project environment o = .ok r ∧ (∀ l : Leaf, HasGroup r l.group) ∧
      ∀ l : Leaf, l.find? r =
        (l.inCommand o).or ((l.inVariables environment).or (l.find? (laid user project))) := by
  have htimeout := mapM_timeoutOf_eq_ok.mpr ⟨hnumber, rfl⟩
  -- what is laid on later goes before what was there, and only for its own setting
  obtain ⟨r₁, hr₁, h₁, hfind₁⟩ :=
    exists_assign?_eq .timeout (Leaf.timeout.inVariables environment) h
  obtain ⟨r₂, hr₂, h₂, hfind₂⟩ :=
    exists_assign?_eq .format (Leaf.format.inVariables environment) h₁
  obtain ⟨r₃, hr₃, h₃, hfind₃⟩ := exists_assign?_eq .timeout (Leaf.timeout.inCommand o) h₂
  obtain ⟨r, hr, hgroups, hfind⟩ := exists_assign?_eq .format (Leaf.format.inCommand o) h₃
  refine ⟨r, ?_, hgroups, fun l => ?_⟩
  · exact bind_eq_ok.mpr ⟨r₂, bind_eq_ok.mpr ⟨_, htimeout, bind_eq_ok.mpr ⟨r₁, hr₁, hr₂⟩⟩,
      bind_eq_ok.mpr ⟨r₃, hr₃, hr⟩⟩
  · rw [hfind, hfind₃, hfind₂, hfind₁]
    cases l <;> simp [Leaf.name, Leaf.inCommand, Leaf.inVariables]

/-- Layers that can be laid have a number in the environment, or nothing. -/
theorem givesNumber_of_layers {user : Settings} {project : Option (List (Value × Value))}
    {r : List (Value × Value)} (h : layers user project environment o = .ok r) :
    GivesNumber environment := by
  obtain ⟨_, hvariables, -⟩ := bind_eq_ok.mp h
  obtain ⟨_, htimeout, -⟩ := bind_eq_ok.mp hvariables
  exact (mapM_timeoutOf_eq_ok.mp htimeout).1

end Outside

/-! ## All layers -/

/-- Everything that settings come from. -/
structure Sources where
  /-- The object in the file of the user, if there is one. -/
  user : Option (List (Value × Value))
  /-- The object in the file of the project, if there is one. -/
  project : Option (List (Value × Value))
  environment : Table String
  command : Overrides

/-- What the highest of the layers has that has anything for a setting. -/
def Sources.value (x : Sources) (leaf : Leaf) : Value :=
  ((leaf.inCommand x.command).or <| (leaf.inVariables x.environment).or <|
    (x.project.bind leaf.find?).or <| x.user.bind leaf.find?).getD leaf.usual

/-- Whether the settings of the user are good and the variable for the time holds a number. -/
structure Sources.IsGood (x : Sources) : Prop where
  user : ∀ given, x.user = some given → ∃ user, Settings.read (.map given) = .good user
  number : GivesNumber x.environment

/-- Whether the groups of the project are groups. -/
def Sources.IsGrouped (x : Sources) : Prop := ∀ given, x.project = some given → Grouped given

/-- Whether a file holds an object with the given entries, or is not there. -/
inductive HoldsObject (d : Disk) (p : Path) : Option (List (Value × Value)) → Prop where
  | file {es : List (Value × Value)} (isFile : d.isFile p = true) (object : d.HasObject p es) :
    HoldsObject d p (some es)
  | none (isFile : d.isFile p = false) : HoldsObject d p none

/-- Whether a session finds these sources, with the settings of the user in the folder `p` on the
disk `d`. -/
structure Sources.SeenBy (x : Sources) (s : Session) (p : Path) (d : Disk) : Prop where
  finds : Finds s p d
  isPlain : (projectIn d).IsPlain
  user : HoldsObject d (fileIn p) x.user
  project : HoldsObject d (projectIn d) x.project
  environment : x.environment = s.environment

section Layers

variable {x : Sources} {s : Session} {p : Path} {d : Disk} {c user : Settings}

theorem HoldsObject.holdsProject {given : Option (List (Value × Value))}
    (h : HoldsObject d (projectIn d) given) : HoldsProject d given := by
  cases h with
  | file isFile object => exact .file isFile object rfl
  | none isFile => exact .none isFile rfl

/-- The settings of the user are good as soon as their file is, or is not there. -/
theorem HoldsObject.exists_holds {given : Option (List (Value × Value))}
    (h : HoldsObject d p given)
    (hgood : ∀ es, given = some es → ∃ v, Settings.read (.map es) = .good v) :
    ∃ v, Holds d p v := by
  cases h with
  | @file es isFile object =>
    obtain ⟨v, hv⟩ := hgood es rfl
    exact ⟨v, .file isFile object hv⟩
  | none isFile => exact ⟨.usual, .usual isFile rfl⟩

/-- What a good file of the user has is read as the settings that it holds. -/
theorem HoldsObject.of_holds {given : Option (List (Value × Value))} (h : HoldsObject d p given)
    (hholds : Holds d p user) :
    (∀ es, given = some es → ∃ v, Settings.read (.map es) = .good v) ∧
      ∀ leaf : Leaf, leaf.read ((given.bind leaf.find?).getD leaf.usual) =
        .good (leaf.valueIn user) := by
  cases h with
  | @file es isFile object =>
    cases hholds with
    | @file es' _ object' hread =>
      obtain rfl : es = es' := hasObject_unique object object'
      refine ⟨fun _ heq => ⟨user, ?_⟩, (read_eq_good_iff (grouped_of_read hread)).mp hread⟩
      rwa [← Option.some.inj heq]
    | usual hno => cases isFile.symm.trans hno
  | none hno =>
    cases hholds with
    | file isFile => cases isFile.symm.trans hno
    | usual _ heq =>
      subst heq
      exact ⟨nofun, fun leaf => leaf.read_valueIn .usual⟩

/-- If the project has groups in the places of groups, the layers have all groups. -/
theorem hasGroup_laid_of_isGrouped (hproject : HoldsProject d x.project) (hgrouped : x.IsGrouped)
    (user : Settings) (leaf : Leaf) : HasGroup (laid user x.project) leaf.group :=
  (hasGroup_laid leaf.group_eq hproject).mpr fun given v hgiven => hgrouped given hgiven leaf v

/-- The files have for a setting what the project has, or else the setting of the user. -/
theorem find?_laid (hproject : HoldsProject d x.project) (hgrouped : x.IsGrouped)
    (user : Settings) (leaf : Leaf) :
    leaf.find? (laid user x.project) =
      some ((x.project.bind leaf.find?).getD (leaf.valueIn user)) := by
  cases hproject with
  | none _ heq =>
    rw [heq]
    exact leaf.find?_entries user
  | @file es _ hobject heq =>
    obtain ⟨_, -, hread⟩ := hobject
    rw [heq]
    exact find?_overlayEntries (Json.isJson_of_read hread) (hgrouped es heq) user leaf

/-- What stands for a setting of the user may be put in its place: both are read as the same. -/
theorem Leaf.read_getD_iff {leaf : Leaf} {given own : Option Value} {v : Value}
    (hown : leaf.read (own.getD leaf.usual) = .good (leaf.valueIn user)) :
    leaf.read (given.getD (leaf.valueIn user)) = .good v ↔
      leaf.read ((given.or own).getD leaf.usual) = .good v := by
  cases given with
  | none => rw [Option.getD_none, Option.none_or, leaf.read_valueIn, hown]
  | some w => rfl

/-- The layers are settings if each setting is read from the highest layer that has it. -/
theorem merge_eq_ok_iff (hproject : HoldsProject d x.project) (hgrouped : x.IsGrouped)
    (huser : ∀ leaf : Leaf, leaf.read ((x.user.bind leaf.find?).getD leaf.usual) =
      .good (leaf.valueIn user)) :
    merge user x.project x.environment x.command = .ok c ↔ GivesNumber x.environment ∧
      ∀ leaf : Leaf, leaf.read (x.value leaf) = .good (leaf.valueIn c) := by
  -- the layers are there as soon as the variable holds a number, whatever the settings are
  have hlayers (hnumber : GivesNumber x.environment) :
      ∃ r, layers user x.project x.environment x.command = .ok r ∧
        (Settings.read (.map r) = .good c ↔
          ∀ leaf : Leaf, leaf.read (x.value leaf) = .good (leaf.valueIn c)) := by
    obtain ⟨r, hr, hgroups, hfind⟩ :=
      exists_layers_eq hnumber (hasGroup_laid_of_isGrouped hproject hgrouped user)
    have hgrouped' : Grouped r := fun leaf _ hv => (hasGroup_iff_of_get? hv).mp (hgroups leaf)
    refine ⟨r, hr, (read_eq_good_iff hgrouped').trans (forall_congr' fun leaf => ?_)⟩
    rw [hfind, find?_laid hproject hgrouped, Sources.value]
    simp only [← Option.or_assoc]
    rw [← Leaf.read_getD_iff (huser leaf)]
    simp [Option.or_some, Option.getD_or]
  rw [merge_eq_ok]
  constructor
  · rintro ⟨es, hes, hread⟩
    have hnumber := givesNumber_of_layers hes
    obtain ⟨r, hr, hiff⟩ := hlayers hnumber
    obtain rfl : es = r := Except.ok.inj (hes.symm.trans hr)
    exact ⟨hnumber, hiff.mp hread⟩
  · rintro ⟨hnumber, hleaf⟩
    obtain ⟨r, hr, hiff⟩ := hlayers hnumber
    exact ⟨r, hr, hiff.mpr hleaf⟩

/-- **When settings are those in effect:** the sources are good, and each setting is what the value
in the highest layer that has one is read as. -/
theorem effective_eq_ok_iff (hseen : x.SeenBy s p d) (hgrouped : x.IsGrouped) :
    (∃ t, effective x.command s = .ok c t) ↔
      x.IsGood ∧ ∀ leaf : Leaf, leaf.read (x.value leaf) = .good (leaf.valueIn c) := by
  have hproject := hseen.project.holdsProject
  constructor
  · rintro ⟨t, hrun⟩
    -- the files that were read are those of the sources, since a session finds only one of each
    obtain ⟨p', d', user, heffect, -⟩ := of_effective hrun
    obtain rfl : p = p' := Except.ok.inj (hseen.finds.folder.symm.trans heffect.finds.folder)
    obtain rfl : d = d' := Except.ok.inj (hseen.finds.made.symm.trans heffect.finds.made)
    obtain ⟨project, hholds, hmerged⟩ := heffect.merged
    obtain rfl : x.project = project := holdsProject_unique hproject hholds
    obtain ⟨hgood, huser⟩ := hseen.user.of_holds heffect.holds
    rw [← hseen.environment] at hmerged
    obtain ⟨hnumber, hleaf⟩ := (merge_eq_ok_iff hproject hgrouped huser).mp hmerged
    exact ⟨⟨hgood, hnumber⟩, hleaf⟩
  · rintro ⟨hgood, hleaf⟩
    obtain ⟨user, hholds⟩ := hseen.user.exists_holds hgood.user
    obtain ⟨-, huser⟩ := hseen.user.of_holds hholds
    have hmerged := (merge_eq_ok_iff hproject hgrouped huser).mpr ⟨hgood.number, hleaf⟩
    rw [hseen.environment] at hmerged
    obtain ⟨t, hrun, -⟩ := exists_effective (o := x.command)
      ⟨hseen.finds, hholds, hseen.isPlain, x.project, hproject, hmerged⟩
    exact ⟨t, hrun⟩

/-- **Each setting comes from the highest layer that has it, and from no other.** Let a session with
some sources, in which the groups of the project are groups, have settings in effect. Then each of
them is what the value in the highest layer that has one is read as. The same settings are in effect
with all other sources that have the same in the highest layers: what they have below that may be
anything, and so may entries that are no settings, as long as the user's own settings are good, the
groups are groups and the variable for the time holds a number. -/
theorem effective_precedence (x : Sources) (s : Session) (p : Path) (d : Disk) (c : Settings)
    (t : Session) (hseen : x.SeenBy s p d) (hgrouped : x.IsGrouped)
    (hrun : effective x.command s = .ok c t) :
    (∀ leaf : Leaf, leaf.read (x.value leaf) = .good (leaf.valueIn c)) ∧
    ∀ (x' : Sources) (s' : Session) (p' : Path) (d' : Disk), x'.SeenBy s' p' d' → x'.IsGrouped →
      x'.IsGood → (∀ leaf : Leaf, x'.value leaf = x.value leaf) →
      ∃ t', effective x'.command s' = .ok c t' := by
  obtain ⟨-, hleaf⟩ := (effective_eq_ok_iff hseen hgrouped).mp ⟨t, hrun⟩
  -- when settings are in effect is said by the highest layers alone, and these are the same
  refine ⟨hleaf, fun x' s' p' d' hseen' hgrouped' hgood' hsame => ?_⟩
  refine (effective_eq_ok_iff hseen' hgrouped').mpr ⟨hgood', fun leaf => ?_⟩
  rw [hsame leaf]
  exact hleaf leaf

end Layers

/-! ### Two sessions with the same settings -/

/-- The bytes of a file with a value in it. -/
def bytesOf (v : Value) : List UInt8 :=
  Text.Utf8.encode ((Json.write .ascii v).toOption.getD "")

/-- Surroundings with a variable for the time. -/
def hurried : Table String :=
  [("XDG_CONFIG_HOME", "xdg"), ("HOME", "/work"), ("RAMLKIT_TIMEOUT", "7")]

/-- A session with an object of the user and one of the project. -/
def layered (user project : List (Value × Value)) : Session :=
  .start ⟨⟨["work"], [("work", .folder), ("work/xdg", .folder), ("work/xdg/ramlkit", .folder),
      ("work/xdg/ramlkit/config.json", .file (bytesOf (.map user))),
      ("work/ramlkit.json", .file (bytesOf (.map project)))]⟩, []⟩ hurried

/-- What such a session finds, with a format that the command gives. -/
def layeredSources (user project : List (Value × Value)) : Sources :=
  ⟨some user, some project, hurried, ⟨none, some "json"⟩⟩

/-- A file that was written as JSON holds the object that was written. -/
theorem hasObject_of_read {d : Disk} {p : Path} {es : List (Value × Value)}
    (h : Json.IsJson (.map es)) (hread : d.read p = .ok (bytesOf (.map es))) :
    d.HasObject p es := by
  obtain ⟨text, hwrite, hobject⟩ := Json.exists_write Json.Alphabet.escapesControls_ascii h
  have hbytes : bytesOf (.map es) = Text.Utf8.encode text := by
    rw [bytesOf, hwrite]
    rfl
  have hobject : Json.read (text ++ "") = .ok (.map es) := hobject "" (List.forall_mem_nil _)
  rw [String.append_empty] at hobject
  rw [hbytes] at hread
  exact ⟨text, ⟨_, hread, Text.Utf8.decode_encode text⟩, hobject⟩

theorem layeredSources_seenBy {user project : List (Value × Value)}
    (huser : Json.IsJson (.map user)) (hproject : Json.IsJson (.map project)) :
    (layeredSources user project).SeenBy (layered user project) ⟨"", ["xdg", "ramlkit"]⟩
      (layered user project).world.disk where
  finds := finds_of_shared rfl rfl (by rfl)
  isPlain := by
    change (Path.mk "/" ["work", "ramlkit.json"]).IsPlain
    unfold Path.IsPlain
    decide
  user := .file (by rfl) (hasObject_of_read huser (by rfl))
  project := .file (by rfl) (hasObject_of_read hproject (by rfl))
  environment := rfl

/-- The user waits for another time and does not verify. -/
def ofUser : List (Value × Value) :=
  [(.str "fetch", .map [(.str "timeout", .float 5), (.str "verify_ssl", .str "no")])]

/-- A time and a format that are none, and entries that are no settings. -/
def ofProject : List (Value × Value) :=
  [(.str "fetch", .map [(.str "timeout", .str "soon"), (.str "retries", .null)]),
    (.str "output", .map [(.str "format", .list [])]), (.str "cache", .null)]

/-- The settings in effect, whether there is anything in the file of the project or not. -/
def hurriedSettings : Settings :=
  ⟨⟨(Numeral.Floating.finite false 7 0).toFloat, true, false⟩, ⟨"json"⟩⟩

theorem isJson_ofUser : Json.IsJson (.map ofUser) := by
  have hfetch : Json.IsJson (.map [(.str "timeout", .float 5), (.str "verify_ssl", .str "no")]) :=
    .map (t := [("timeout", .float 5), ("verify_ssl", .str "no")])
      (by simp [Table.Distinct, Table.names]) (by simp [Json.IsJson.float, Json.IsJson.str])
  exact .map (t := [("fetch", _)]) (List.nodup_singleton _) (by simpa using hfetch)

theorem isJson_ofProject : Json.IsJson (.map ofProject) := by
  have hfetch : Json.IsJson (.map [(.str "timeout", .str "soon"), (.str "retries", .null)]) :=
    .map (t := [("timeout", .str "soon"), ("retries", .null)])
      (by simp [Table.Distinct, Table.names]) (by simp [Json.IsJson.str, Json.IsJson.null])
  have houtput : Json.IsJson (.map [(.str "format", .list [])]) :=
    .map (t := [("format", .list [])]) (List.nodup_singleton _)
      (List.forall_mem_singleton.mpr (.list (List.forall_mem_nil _)))
  exact .map (t := [("fetch", _), ("output", _), ("cache", .null)])
    (by simp [Table.Distinct, Table.names]) (by simpa using ⟨hfetch, houtput, Json.IsJson.null⟩)

theorem isGrouped_ofProject : Grouped ofProject := by
  intro leaf v hv
  cases leaf
  all_goals
    simp only [ofProject, Leaf.group, Value.get?_cons_str] at hv
    exact ⟨_, (Option.some.inj hv).symm⟩

theorem given?_hurried : given? timeoutVariable hurried = some "7" := by decide

theorem floating?_seven : Numeral.floating? "7" = some (.finite false 7 0) := by decide +kernel

theorem isGood_layeredSources (project : List (Value × Value)) :
    (layeredSources ofUser project).IsGood where
  user := by
    intro given hgiven
    obtain rfl : ofUser = given := Option.some.inj hgiven
    exact ⟨_, rfl⟩
  number := by
    intro text htext
    obtain rfl := Option.some.inj (given?_hurried.symm.trans htext)
    exact ⟨_, floating?_seven⟩

/-- What counts, as the time and the format are given from outside of the files and the project has
none of the other settings. -/
def hurriedValue : Leaf → Value
  | .timeout => .float (Numeral.Floating.finite false 7 0).toFloat
  | .followRedirects => .bool true
  | .verifySsl => .str "no"
  | .format => .str "json"

theorem read_hurriedValue (leaf : Leaf) :
    leaf.read (hurriedValue leaf) = .good (leaf.valueIn hurriedSettings) := by
  cases leaf <;> rfl

theorem value_layeredSources {project : List (Value × Value)}
    (hfollow : Leaf.followRedirects.find? project = none)
    (hverify : Leaf.verifySsl.find? project = none) (leaf : Leaf) :
    (layeredSources ofUser project).value leaf = hurriedValue leaf := by
  have huser : Leaf.followRedirects.find? ofUser = none ∧
      Leaf.verifySsl.find? ofUser = some (.str "no") := by
    simp [Leaf.find?, Leaf.group, Leaf.name, ofUser, Value.get?_cons_str, Value.get?_nil]
  cases leaf with
  | timeout =>
    simp [Sources.value, layeredSources, Leaf.inCommand, Leaf.inVariables, given?_hurried,
      floating?_seven, hurriedValue]
  | followRedirects =>
    simp only [Sources.value, layeredSources, Option.bind_some, hfollow, huser]
    rfl
  | verifySsl =>
    simp only [Sources.value, layeredSources, Option.bind_some, hverify, huser]
    rfl
  | format => rfl

/-- The file of the project may have nothing in it or a lot that is of no use: the same settings are
in effect. -/
theorem effective_layered :
    (∃ t, effective ⟨none, some "json"⟩ (layered ofUser []) = .ok hurriedSettings t) ∧
      ∃ t, effective ⟨none, some "json"⟩ (layered ofUser ofProject) = .ok hurriedSettings t := by
  have hempty : Json.IsJson (.map []) := .map (t := []) List.nodup_nil (List.forall_mem_nil _)
  have hseen := layeredSources_seenBy isJson_ofUser hempty
  have hgrouped : (layeredSources ofUser []).IsGrouped := by
    intro given hgiven leaf v hv
    obtain rfl : [] = given := Option.some.inj hgiven
    cases hv
  have hvalue (leaf : Leaf) : (layeredSources ofUser []).value leaf = hurriedValue leaf :=
    value_layeredSources rfl rfl leaf
  obtain ⟨t, hrun⟩ : ∃ t, effective ⟨none, some "json"⟩ (layered ofUser []) =
      .ok hurriedSettings t := by
    refine (effective_eq_ok_iff hseen hgrouped).mpr ⟨isGood_layeredSources [], fun leaf => ?_⟩
    rw [hvalue]
    exact read_hurriedValue leaf
  -- the project gives nothing for these leaves, so the second run follows from the first
  obtain ⟨-, hsame⟩ := effective_precedence _ _ _ _ hurriedSettings t hseen hgrouped hrun
  refine ⟨⟨t, hrun⟩, hsame (layeredSources ofUser ofProject) _ _ _
    (layeredSources_seenBy isJson_ofUser isJson_ofProject) ?_ (isGood_layeredSources _) ?_⟩
  · intro given hgiven
    rw [← Option.some.inj hgiven]
    exact isGrouped_ofProject
  · intro leaf
    rw [hvalue, value_layeredSources]
    all_goals
      simp [Leaf.find?, Leaf.group, Leaf.name, ofProject, Value.get?_cons_str, Value.get?_nil]

end Settings
end Raml
