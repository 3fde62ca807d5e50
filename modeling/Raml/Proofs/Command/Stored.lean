import Raml.Proofs.Command.Failed
import Raml.Proofs.Settings.Text

/-!
# What a line makes of a setting

A line that gives a setting a new value, and comes to its command at all, either ends well and has
stored the value, or is refused (`outcome_of_callsSet`). So how it ends, and what is loaded
afterwards, tells what the text was taken for, and that is what the same text is in a file with
settings on just the texts on which the two readers agree (`storesAsRead_iff`).
-/

namespace Raml

open Settings (Finds Holds InEffect Saves Leaf ReadsText fileIn)

namespace Command

variable {s : Session} {p : Path} {d : Disk} {user : Settings} {args : List String} {l : Line}
  {key text : String}

/-- Whether a line comes to its command: the settings in effect are accepted, with those of the user
among them, and others can be saved in place of these. -/
structure ComesToCommand (s : Session) (l : Line) (p : Path) (d : Disk) (user : Settings) :
    Prop where
  accepted : ∃ timeout c, timeoutOf l s = .ok timeout s ∧
    InEffect s ⟨timeout, formatOf l⟩ p d user c ∧ c.KnowsFormat
  saves : ∃ d', Saves d p user d'

/-- A setting gets a new value, which is then loaded, or it is refused. -/
theorem giveSetting_cases {o : Output} (hplain : o.colours = false) (key text : String)
    (hfinds : Finds s p s.world.disk) (hholds : Holds s.world.disk (fileIn p) user)
    (hsaves : ∃ d', Saves s.world.disk p user d') :
    (∃ v new t, user.set key text = .ok (v, new) ∧ giveSetting o key text s = .ok () t ∧
      ∃ t', Settings.load t = .ok new t') ∨
    ∃ r t, user.set key text = .error r ∧ giveSetting o key text s = .error (.done 2) t := by
  obtain ⟨s₁, hload, hreaches⟩ := Settings.exists_load hfinds hholds
  have hloaded : (Settings.load : Command Settings) s = .ok user s₁ := ofAction_eq_ok.mpr hload
  rw [giveSetting, bind_of_ok hloaded]
  -- only the new value can be refused: the settings are there, and can be saved
  cases hset : user.set key text with
  | error r =>
    obtain ⟨t, htell, -⟩ := Output.exists_tell hplain (.error r.message) s₁
    have htold : (o.tell (.error r.message) : Command Unit) s₁ = .ok () t :=
      ofAction_eq_ok.mpr htell
    refine .inr ⟨r, t, rfl, ?_⟩
    exact bind_of_ok htold
  | ok result =>
    obtain ⟨v, new⟩ := result
    obtain ⟨_, hsaves⟩ := hsaves
    obtain ⟨d', hsaves⟩ := Settings.exists_saves hsaves new
    obtain ⟨s₂, hsave, hsaved⟩ := Settings.exists_save hsaves (hfinds.again hreaches)
    obtain ⟨t, htell, hstay⟩ :=
      Output.exists_tell hplain (.success ("Set " ++ key ++ " = " ++ v.display)) s₂
    have hrun : (Settings.save new : Command Unit) s₁ = .ok () s₂ := ofAction_eq_ok.mpr hsave
    have hfinds' : Finds t p d' :=
      Finds.of_saves hsaves hfinds ((hreaches.trans hsaved).stay hstay)
    obtain ⟨t', hload', -⟩ := Settings.exists_load hfinds' (Settings.holds_of_saves hsaves)
    refine .inl ⟨v, new, t, rfl, ?_, t', hload'⟩
    exact (bind_of_ok hrun).trans (ofAction_eq_ok.mpr htell)

/-- How a line ends that gives a setting a new value. -/
theorem outcome_of_callsSet (hplain : (outputFor args s).colours = false)
    (hcalls : CallsSet args l key text) (hcomes : ComesToCommand s l p d user) :
    (∃ v new t, user.set key text = .ok (v, new) ∧ (s.run args).1.code = 0 ∧
      Settings.load (s.run args).2 = .ok new t) ∨
    ∃ r, user.set key text = .error r ∧ (s.run args).1.code = 2 := by
  obtain ⟨timeout, c, htimeout, hin, hformat⟩ := hcomes.accepted
  obtain ⟨c', s₁, hprepare, hreaches⟩ := exists_prepare hin hformat
  have hprogram : program args s = giveSetting c'.output key text s₁ := by
    rw [program_of_callsSet hcalls, bind_of_ok htimeout, bind_of_ok hprepare]
  obtain ⟨_, _, _, _, hline, -⟩ := id hcalls
  rw [outputFor_of_calls hline htimeout hprepare] at hplain
  obtain rfl := hreaches.disk
  rcases giveSetting_cases hplain key text (hin.finds.again hreaches) hin.holds hcomes.saves with
    ⟨v, new, t, hset, hgive, t', hload⟩ | ⟨r, t, hset, hgive⟩
  · rw [Session.run, hprogram, hgive]
    exact .inl ⟨v, new, t', hset, rfl, hload⟩
  · rw [Session.run, hprogram, hgive]
    exact .inr ⟨r, hset, rfl⟩

/-- Whether a line that gives a setting a text stores what settings are read with that text in the
place of the setting, and is refused if none are. -/
structure StoresAsRead (s : Session) (args : List String) (leaf : Leaf) (text : String)
    (user : Settings) : Prop where
  ends : (s.run args).1.code = 0 ↔ ∃ new, ReadsText leaf user text new
  refused : (¬∃ new, ReadsText leaf user text new) → (s.run args).1.code = 2
  stored : ∀ new, ReadsText leaf user text new →
    ∃ t, Settings.load (s.run args).2 = .ok new t
  /-- Nothing is switched off by a text that does not say so. -/
  off : ∀ new t, (s.run args).1.code = 0 → Settings.load (s.run args).2 = .ok new t →
    leaf.valueIn new = .bool false → truthOfText? text = some false

section Stores

variable {leaf : Leaf}

/-- A line that stores what is read gives a setting what it is in a file. -/
theorem set_of_storesAsRead (hplain : (outputFor args s).colours = false)
    (hcalls : CallsSet args l leaf.key text)
    (hcomes : ComesToCommand s l p d user) (h : StoresAsRead s args leaf text user)
    (new : Settings) :
    (∃ v, user.set leaf.key text = .ok (v, new)) ↔ ReadsText leaf user text new := by
  rcases outcome_of_callsSet hplain hcalls hcomes with
    ⟨v, found, t, hset, hcode, hload⟩ | ⟨r, hset, hcode⟩
  · -- what is loaded is both what was stored and what is read
    have hsame {other : Settings} (hreads : ReadsText leaf user text other) : other = found := by
      obtain ⟨t', hload'⟩ := h.stored other hreads
      cases hload'.symm.trans hload
      rfl
    obtain ⟨other, hother⟩ := h.ends.mp hcode
    constructor
    · rintro ⟨w, hw⟩
      cases hset.symm.trans hw
      exact hsame hother ▸ hother
    · intro hreads
      rw [hsame hreads]
      exact ⟨v, hset⟩
  -- nothing was stored, so no reading of the text may have been asked for
  · constructor
    · rintro ⟨w, hw⟩
      cases hset.symm.trans hw
    · intro hreads
      rw [h.ends.mpr ⟨new, hreads⟩] at hcode
      cases hcode

/-- A setting stores what was read if a value is taken exactly when its text reads as one. -/
theorem storesAsRead_of_set (hplain : (outputFor args s).colours = false)
    (hcalls : CallsSet args l leaf.key text)
    (hcomes : ComesToCommand s l p d user)
    (h : ∀ new, (∃ v, user.set leaf.key text = .ok (v, new)) ↔ ReadsText leaf user text new) :
    StoresAsRead s args leaf text user := by
  rcases outcome_of_callsSet hplain hcalls hcomes with
    ⟨v, found, t, hset, hcode, hload⟩ | ⟨r, hset, hcode⟩
  · have hfound : ReadsText leaf user text found := (h found).mp ⟨v, hset⟩
    refine ⟨iff_of_true hcode ⟨found, hfound⟩, fun hnone => absurd ⟨found, hfound⟩ hnone,
      fun new hreads => ?_, fun new t' _ hload' hoff => ?_⟩
    · obtain ⟨w, hw⟩ := (h new).mpr hreads
      cases hset.symm.trans hw
      exact ⟨t, hload⟩
    · -- a setting that is off afterwards is what its text is in a file
      cases hload.symm.trans hload'
      obtain ⟨hwritten, -⟩ := Settings.readsText_iff.mp hfound
      rw [hoff] at hwritten
      exact Leaf.truthOfText?_of_written hwritten
  · have hnone : ¬∃ new, ReadsText leaf user text new := by
      rintro ⟨new, hreads⟩
      obtain ⟨w, hw⟩ := (h new).mpr hreads
      cases hset.symm.trans hw
    refine ⟨iff_of_false (by rw [hcode]; decide) hnone, fun _ => hcode,
      fun new hreads => absurd ⟨new, hreads⟩ hnone, fun new t hzero => ?_⟩
    rw [hcode] at hzero
    cases hzero

/-- **A line stores what the text is in a file with settings,** or is refused if it is nothing
there, for just the texts on which the readers agree. What comes of it has to be told without
colours: in colours a text may be stored and yet not be told. -/
theorem storesAsRead_iff (leaf : Leaf) (text : String) (args : List String) (l : Line)
    (s : Session) (p : Path) (d : Disk) (user : Settings)
    (hplain : (outputFor args s).colours = false)
    (hcalls : CallsSet args l leaf.key text) (hcomes : ComesToCommand s l p d user) :
    StoresAsRead s args leaf text user ↔ leaf.Agrees text := by
  have hset : StoresAsRead s args leaf text user ↔ ∀ new,
      (∃ v, user.set leaf.key text = .ok (v, new)) ↔ ReadsText leaf user text new :=
    ⟨set_of_storesAsRead hplain hcalls hcomes, storesAsRead_of_set hplain hcalls hcomes⟩
  exact hset.trans Settings.set_agrees_iff

end Stores

/-- A session without colours in which the folder of the settings is there, and nothing in it. -/
def settled : Session :=
  .start ⟨⟨["work"], [("work", .folder), ("work/xdg", .folder), ("work/xdg/ramlkit", .folder)]⟩, []⟩
    [("NO_COLOR", "1"), ("XDG_CONFIG_HOME", "xdg"), ("HOME", "/work")]

/-- The line that gives the setting for certificates a text. -/
def verifying (text : String) : List String := ["config", "set", "fetch.verify_ssl", text]

theorem callsSet_verifying {text : String} (hend : text ≠ "--")
    (hswitch : Line.isSwitch text = false) :
    CallsSet (verifying text) ⟨[], verifying text⟩ Leaf.verifySsl.key text := by
  have hlast : Line.read [⟨["--help"], false⟩] true ["fetch.verify_ssl", text] =
      some ⟨[], ["fetch.verify_ssl", text]⟩ := by
    have hkey : Line.isSwitch "fetch.verify_ssl" = false := by decide
    simp [Line.read, hend, hswitch, hkey]
  have hinner : Line.read [⟨["--help"], false⟩] false ("set" :: ["fetch.verify_ssl", text]) =
      some ⟨[], "set" :: ["fetch.verify_ssl", text]⟩ := by
    have hname : Line.isSwitch "set" = false := by decide
    simp [Line.read, hname]
  have hcalls : Line.read programSwitches false (verifying text) = some ⟨[], verifying text⟩ := by
    have hname : Line.isSwitch "config" = false := by decide
    simp [verifying, Line.read, hname]
  exact ⟨_, ⟨[], "set" :: ["fetch.verify_ssl", text]⟩, _, ⟨[], ["fetch.verify_ssl", text]⟩,
    ⟨hcalls, rfl, rfl, rfl⟩, ⟨hinner, rfl⟩, rfl, ⟨hlast, rfl⟩, rfl⟩

theorem settled_comesToCommand (text : String) :
    ComesToCommand settled ⟨[], verifying text⟩ ⟨"", ["xdg", "ramlkit"]⟩ settled.world.disk
      .usual where
  accepted := by
    have hplain : (Settings.projectIn settled.world.disk).IsPlain := by
      change (Path.mk "/" ["work", "ramlkit.json"]).IsPlain
      unfold Path.IsPlain
      decide
    exact ⟨none, .usual, rfl, ⟨Settings.finds_of_shared rfl rfl (by rfl), .usual (by rfl) rfl,
      hplain, none, .none (by rfl) rfl, rfl⟩, .auto, by decide⟩
  saves := by
    obtain ⟨bytes, htext, -⟩ := Settings.usual.exists_fileText
    exact ⟨_, bytes, htext, Disk.write_eq_ok.mpr ⟨_, by rfl, by decide, rfl⟩⟩

/-- A word for false switches the setting off, however it is spelled. -/
theorem storesAsRead_no : StoresAsRead settled (verifying "No") .verifySsl "No" .usual := by
  have hagrees : Leaf.verifySsl.Agrees "No" := by
    change String.ofList ("No".toList.map Char.toLower) ∈ falseWords ++ Settings.onWords
    decide
  exact (storesAsRead_iff .verifySsl "No" _ _ _ _ _ _ (colours_outputFor _ rfl)
    (callsSet_verifying (by decide) (by decide)) (settled_comesToCommand "No")).mpr hagrees

/-- A word that leaves the setting on in a file switches it off. -/
theorem on_switches_off :
    CallsSet (verifying "on") ⟨[], verifying "on"⟩ Leaf.verifySsl.key "on" ∧
    ComesToCommand settled ⟨[], verifying "on"⟩ ⟨"", ["xdg", "ramlkit"]⟩ settled.world.disk
      .usual ∧
    ReadsText .verifySsl .usual "on" .usual ∧
    (settled.run (verifying "on")).1.code = 0 ∧
    (∃ new t, Settings.load (settled.run (verifying "on")).2 = .ok new t ∧
      new.fetch.verifySsl = false) ∧
    ¬StoresAsRead settled (verifying "on") .verifySsl "on" .usual := by
  -- the run is evaluated once, and all that follows from it is argued
  have hcode : (settled.run (verifying "on")).1.code = 0 := by decide +kernel
  have hoff : (match Settings.load (settled.run (verifying "on")).2 with
      | .ok new _ => new.fetch.verifySsl
      | .error _ _ => true) = false := by decide +kernel
  have hload : ∃ new t, Settings.load (settled.run (verifying "on")).2 = .ok new t ∧
      new.fetch.verifySsl = false := by
    split at hoff
    · rename_i new t hload
      exact ⟨new, t, hload, hoff⟩
    · cases hoff
  have htrue : truthOfText? "on" = some true := by decide
  have hreads : ReadsText .verifySsl .usual "on" .usual :=
    Settings.readsText_iff.mpr ⟨congrArg (Option.map Value.bool) htrue, fun _ _ => rfl⟩
  refine ⟨callsSet_verifying (by decide) (by decide), settled_comesToCommand "on", hreads, hcode,
    hload, fun h => ?_⟩
  obtain ⟨new, t, hload, hoff⟩ := hload
  have hfalse : truthOfText? "on" = some false :=
    h.off new t hcode hload (congrArg Value.bool hoff)
  cases htrue.symm.trans hfalse

end Command

end Raml
