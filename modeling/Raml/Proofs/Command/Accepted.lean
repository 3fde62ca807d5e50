import Raml.Proofs.Command.Failed

/-!
# Settings that stay accepted

Before any command the settings in effect are read and have to name a format. Whoever has stored
settings for which that fails cannot store others any more, for the commands that do so are not
reached either. A command keeps what is accepted unless it stores the name of no format
(`accepts_run_change`): it keeps every file, or it stores settings that are laid under those of the
project, of the surroundings and of the line as the old ones were, and the result differs from the
old one only in values of the same kind. The latter may happen even if it fails, for what it has
stored it has to tell.

Nothing keeps a user from storing the name of no format; `not_accepts_of_other_format` does it.
-/

namespace Raml

open Settings (InEffect Saves)

variable {s t : Session} {p : Path} {d d' : Disk} {user new : Settings}

/-! ## Settings in effect after a command -/

/-- Whether the settings in effect are accepted, when a line has no switches before its command. -/
def Command.accepts (s : Session) : Bool :=
  match prepare ⟨[], []⟩ none s with
  | .ok _ _ => true
  | .error _ _ => false

/-- A session takes commands exactly when the settings that are in effect have a format that the
output knows. -/
theorem Command.accepts_iff : accepts s = true ↔
    ∃ p d user c, InEffect s ⟨none, none⟩ p d user c ∧ c.KnowsFormat := by
  constructor
  · intro h
    rw [accepts] at h
    cases hprepare : prepare ⟨[], []⟩ none s with
    | ok c t =>
      obtain ⟨p, d, user, hin, hformat, -⟩ := of_prepare hprepare
      exact ⟨p, d, user, c.settings, hin, hformat⟩
    | error e t =>
      rw [hprepare] at h
      cases h
  · rintro ⟨p, d, user, c, hin, hformat⟩
    have hin : InEffect s ⟨none, formatOf ⟨[], []⟩⟩ p d user c := hin
    obtain ⟨c', t, hprepare, -⟩ := exists_prepare hin hformat
    rw [accepts, hprepare]

/-- A step that keeps the files keeps the settings in effect. -/
theorem Session.KeepsFiles.inEffect {o : Settings.Overrides} {c : Settings} (h : s.KeepsFiles t)
    (hin : InEffect s o p d user c) : InEffect t o p d user c where
  finds :=
    { folder := (Settings.folderFor_congr h.environment h.sharesFolder).trans hin.finds.folder
      isPlain := hin.finds.isPlain
      fileIsPlain := hin.finds.fileIsPlain
      made := by
        rcases h.disk with hdisk | ⟨q, hq, hmade⟩
        · rw [hdisk, hin.finds.made]
        · obtain rfl := Except.ok.inj (hin.finds.folder.symm.trans hq)
          rw [← Except.ok.inj (hin.finds.made.symm.trans hmade)]
          exact Disk.makeFolders_of_isFolder (Disk.makeFolders_spec hin.finds.made).isFolder }
  holds := hin.holds
  isPlain := hin.isPlain
  merged := by
    rw [h.environment]
    exact hin.merged

/-- Once other settings of the user are saved, those in effect name a format if they did before. -/
theorem Settings.InEffect.of_saves {o : Settings.Overrides} {c : Settings}
    (hin : InEffect s o p d user c) (hc : c.KnowsFormat) (hsaves : Saves d p new d')
    (hreaches : s.Reaches d' t) (hformat : user.KnowsFormat → new.KnowsFormat) :
    ∃ c', InEffect t o p d' new c' ∧ c'.KnowsFormat := by
  obtain ⟨project, hproject, hmerge⟩ := hin.merged
  obtain ⟨c', hmerge', hc'⟩ := Settings.exists_merge hformat hmerge hc
  have hplain : (Settings.projectIn d').IsPlain := by
    rw [Settings.projectIn, Settings.home_of_saves hsaves]
    exact hin.isPlain
  exact ⟨c', ⟨.of_saves hsaves hin.finds hreaches, Settings.holds_of_saves hsaves, hplain, project,
    hproject.of_saves hsaves, hreaches.environment ▸ hmerge'⟩, hc'⟩

namespace Command

/-! ## Lines of the group -/

/-- A command that changes the settings of the user. -/
inductive Change where
  | set (key text : String)
  | reset

/-- The line that calls for a change. -/
def Change.line : Change → List String
  | .set key text => ["config", "set", key, text]
  | .reset => ["config", "reset", "--yes"]

/-- What the line comes down to, once the output is settled. -/
def Change.run (c : Setting) : Change → Command Unit
  | .set key text => changeSetting c [key, text]
  | .reset => resetSettings c ["--yes"]

/-- Whether a change does not put anything else in the place of a format. -/
def Change.KeepsFormat : Change → Prop
  | .set key text => key = "output.format" → ∃ f, Format.ofName? text = some f
  | .reset => True

/-- What is left of a line after the name of its command is not looked at before. -/
theorem read_of_command {known : List Switch} {name : String} (hend : name ≠ "--")
    (hswitch : Line.isSwitch name = false) (rest : List String) :
    Line.read known false (name :: rest) = some ⟨[], name :: rest⟩ := by
  rw [Line.read, if_neg hend, hswitch, if_neg Bool.false_ne_true, if_neg Bool.false_ne_true]

/-- What a line of the group for settings does. -/
theorem program_config (name : String) {run : Setting → List String → Command Unit}
    (hend : name ≠ "--") (hswitch : Line.isSwitch name = false)
    (hrun : [("show", showSettings), ("set", changeSetting), ("reset", resetSettings)].lookup name =
      some run) (rest : List String) (s : Session) :
    program ("config" :: name :: rest) s = (do
      let c ← prepare ⟨[], []⟩ none
      run c rest : Command Unit) s := by
  have hcalls : Calls ("config" :: name :: rest) ⟨[], "config" :: name :: rest⟩ "config"
      (name :: rest) := ⟨read_of_command (by decide) (by decide) _, rfl, rfl, rfl⟩
  have htakes : Takes [] false (name :: rest) ⟨[], name :: rest⟩ :=
    ⟨read_of_command hend hswitch rest, rfl⟩
  have hentry (c : Setting) : Entry.run c (name :: rest) (.group
      [("show", showSettings), ("set", changeSetting), ("reset", resetSettings)]) = run c rest := by
    funext s
    rw [Entry.run, runGroup_of_takes htakes rfl hrun]
  rw [program_of_calls hcalls rfl]
  simp only [hentry]
  rfl

/-- The line of a change prepares as any other command does and then makes the change. -/
theorem program_change (change : Change) (s : Session) : program change.line s = (do
    let c ← prepare ⟨[], []⟩ none
    change.run c : Command Unit) s := by
  cases change with
  | set key text => exact program_config "set" (by decide) (by decide) rfl [key, text] s
  | reset => exact program_config "reset" (by decide) (by decide) rfl ["--yes"] s

/-- A change is reached from settings that are accepted. -/
theorem exists_program_change (hs : accepts s = true) (change : Change) :
    ∃ c t, prepare ⟨[], []⟩ none s = .ok c t ∧ program change.line s = change.run c t := by
  rw [accepts] at hs
  cases hprepare : prepare ⟨[], []⟩ none s with
  | ok c t => exact ⟨c, t, rfl, (program_change change s).trans (bind_of_ok hprepare)⟩
  | error e t =>
    rw [hprepare] at hs
    cases hs

/-! ## One change after another -/

/-- Two arguments that are taken apart without a call for help are a setting and its new value. -/
theorem giveSetting_of_changeSetting {c : Setting} {key text : String}
    (h : changeSetting c [key, text] s = .ok () t) :
    giveSetting c.output key text s = .ok () t := by
  obtain ⟨l, s₁, hline, -⟩ := of_run_bind h
  obtain ⟨htakes, hcount, rfl⟩ := readArguments_eq_ok.mp hline
  have hothers : l.others = [key, text] := (sublist_of_read htakes.read).eq_of_length hcount
  rwa [changeSetting_of_takes htakes hothers] at h

/-- Settings are saved and that is told: they are saved even if they cannot be told. -/
theorem of_save_tell_error {o : Output} {n : Notice} {e : Ending}
    (hfinds : Settings.Finds s p s.world.disk)
    (h : (do Settings.save new; o.tell n : Command Unit) s = .error e t) :
    s.KeepsFiles t ∨ ∃ d', Saves s.world.disk p new d' ∧ s.Reaches d' t := by
  rcases of_run_bind_error h with hsave | ⟨_, s₁, hsave, htell⟩
  · exact .inl (failsKeeping_ofAction (Settings.failsKeeping_save new) _ _ _ hsave)
  · obtain ⟨d', hsaves, hreaches⟩ := save_of_finds hfinds (ofAction_eq_ok.mp hsave)
    obtain ⟨e', htell, -⟩ := ofAction_eq_error.mp htell
    exact .inr ⟨d', hsaves, hreaches.stay (Output.reaches_of_tell_error htell)⟩

/-- A change of a setting that fails has either left the files alone or saved the new settings
first. -/
theorem of_changeSetting_error {c : Setting} {key text : String} {e : Ending}
    (hfinds : Settings.Finds s p s.world.disk)
    (hholds : Settings.Holds s.world.disk (Settings.fileIn p) user)
    (h : changeSetting c [key, text] s = .error e t) :
    s.KeepsFiles t ∨ ∃ v new d', user.set key text = .ok (v, new) ∧ Saves s.world.disk p new d' ∧
      s.Reaches d' t := by
  -- the line, the loading and the change itself can fail; only the last one can have saved
  rcases of_run_bind_error h with hline | ⟨l, s₁, hline, -⟩
  · exact .inl ((keeps_readArguments _ _ _).error hline)
  obtain ⟨htakes, hcount, rfl⟩ := readArguments_eq_ok.mp hline
  have hothers : l.others = [key, text] := (sublist_of_read htakes.read).eq_of_length hcount
  rw [changeSetting_of_takes htakes hothers] at h
  rcases of_run_bind_error h with hload | ⟨found, s₂, hload, hrest⟩
  · exact .inl ((keeps_ofAction Settings.keeps_load).error hload)
  obtain ⟨rfl, hreaches⟩ := load_of_holds hfinds hholds (ofAction_eq_ok.mp hload)
  have hkeeps := Session.KeepsFiles.of_reaches hreaches
  cases hset : found.set key text with
  | error r =>
    simp only [hset] at hrest
    exact .inl (hkeeps.trans ((keeps_refuse _ _ _).error hrest))
  | ok result =>
    simp only [hset] at hrest
    have hfinds₂ : Settings.Finds s₂ p s₂.world.disk := hreaches.disk ▸ hfinds.again hreaches
    rcases of_save_tell_error hfinds₂ hrest with hkept | ⟨d', hsaves, hsaved⟩
    · exact .inl (hkeeps.trans hkept)
    · exact .inr ⟨_, _, d', rfl, hreaches.disk ▸ hsaves, hreaches.trans hsaved⟩

/-- Settings are put back without a question. -/
theorem resetSettings_yes (c : Setting) (s : Session) : resetSettings c ["--yes"] s = (do
      Settings.save .usual
      c.output.tell (.success "Configuration reset to defaults.") : Command Unit) s := by
  have hline : readArguments [⟨["--yes", "-y"], false⟩] 0 ["--yes"] s =
      .ok ⟨[("--yes", "")], []⟩ s := readArguments_eq_ok.mpr ⟨⟨by decide, rfl⟩, rfl, rfl⟩
  exact bind_of_ok hline

/-- A reset that succeeds has saved the usual settings. -/
theorem of_resetSettings {c : Setting} (hfinds : Settings.Finds s p s.world.disk)
    (h : resetSettings c ["--yes"] s = .ok () t) :
    ∃ d', Saves s.world.disk p .usual d' ∧ s.Reaches d' t := by
  rw [resetSettings_yes] at h
  obtain ⟨_, s₁, hsave, htell⟩ := of_run_bind h
  obtain ⟨d', hsaves, hreaches⟩ := save_of_finds hfinds (ofAction_eq_ok.mp hsave)
  exact ⟨d', hsaves, hreaches.stay (Output.reaches_of_tell (ofAction_eq_ok.mp htell))⟩

/-- Whether other settings of the user are stored in the second session, which name a format if the
old ones do. -/
def Stores (s t : Session) : Prop := ∃ p d user c new d', InEffect s ⟨none, none⟩ p d user c ∧
  c.KnowsFormat ∧ Saves d p new d' ∧ s.Reaches d' t ∧ (user.KnowsFormat → new.KnowsFormat)

/-- Where the stored settings have a format that the output knows, the session takes commands. -/
theorem Stores.accepts (h : Stores s t) : accepts t = true := by
  obtain ⟨p, d, user, c, new, d', hin, hc, hsaves, hreaches, hformat⟩ := h
  obtain ⟨c', hin', hc'⟩ := hin.of_saves hc hsaves hreaches hformat
  exact accepts_iff.mpr ⟨p, d', new, c', hin', hc'⟩

theorem Stores.stay {u : Session} (h : Stores s t) (hreaches : t.Reaches t.world.disk u) :
    Stores s u := by
  obtain ⟨p, d, user, c, new, d', hin, hc, hsaves, hst, hformat⟩ := h
  exact ⟨p, d, user, c, new, d', hin, hc, hsaves, hst.stay hreaches, hformat⟩

/-- The format is as it was, or the one that was just set. -/
theorem knowsFormat_of_set {key text : String} {v : Value}
    (hkeeps : (Change.set key text).KeepsFormat) (hset : user.set key text = .ok (v, new)) :
    user.KnowsFormat → new.KnowsFormat := by
  rcases (Settings.set_spec hset).output with hsame | ⟨hkey, htext⟩
  · rw [Settings.KnowsFormat, Settings.KnowsFormat, hsame]
    exact id
  · intro _
    rw [Settings.KnowsFormat, htext]
    exact hkeeps hkey

/-- A change that comes to its end has stored something. -/
theorem stores_of_change {change : Change} (hkeeps : change.KeepsFormat)
    (h : program change.line s = .ok () t) : Stores s t := by
  rw [program_change] at h
  obtain ⟨c, s₁, hprepare, hrun⟩ := of_run_bind h
  obtain ⟨p, d, user, hin, hformat, hreaches⟩ := of_prepare hprepare
  obtain rfl := hreaches.disk
  have hfinds := hin.finds.again hreaches
  cases change with
  | set key text =>
    obtain ⟨v, new, d', hset, hsaves, hsaved⟩ :=
      of_giveSetting hfinds hin.holds (giveSetting_of_changeSetting hrun)
    exact ⟨p, _, user, c.settings, new, d', hin, hformat, hsaves, hreaches.trans hsaved,
      knowsFormat_of_set hkeeps hset⟩
  | reset =>
    obtain ⟨d', hsaves, hsaved⟩ := of_resetSettings hfinds hrun
    exact ⟨p, _, user, c.settings, .usual, d', hin, hformat, hsaves, hreaches.trans hsaved,
      fun _ => ⟨.auto, by decide⟩⟩

/-- A change that fails keeps the files, unless it fails to tell what it has stored. -/
theorem keepsFiles_or_stores_of_change {change : Change} {e : Ending}
    (hkeeps : change.KeepsFormat) (h : program change.line s = .error e t) :
    s.KeepsFiles t ∨ Stores s t := by
  rw [program_change] at h
  rcases of_run_bind_error h with hprepare | ⟨c, s₁, hprepare, hrun⟩
  · exact .inl ((keeps_prepare _ _).error hprepare)
  have hkept := (keeps_prepare _ _).ok hprepare
  obtain ⟨p, d, user, hin, hformat, hreaches⟩ := of_prepare hprepare
  obtain rfl := hreaches.disk
  have hfinds := hin.finds.again hreaches
  -- both changes end in saving and telling, which is where they may have gone through halfway
  cases change with
  | set key text =>
    rcases of_changeSetting_error hfinds hin.holds hrun with
      hfiles | ⟨v, new, d', hset, hsaves, hsaved⟩
    · exact .inl (hkept.trans hfiles)
    · exact .inr ⟨p, _, user, c.settings, new, d', hin, hformat, hsaves, hreaches.trans hsaved,
        knowsFormat_of_set hkeeps hset⟩
  | reset =>
    rw [Change.run, resetSettings_yes] at hrun
    rcases of_save_tell_error hfinds hrun with hfiles | ⟨d', hsaves, hsaved⟩
    · exact .inl (hkept.trans hfiles)
    · exact .inr ⟨p, _, user, c.settings, .usual, d', hin, hformat, hsaves,
        hreaches.trans hsaved, fun _ => ⟨.auto, by decide⟩⟩

/-- One change keeps what is accepted, however it ends. -/
theorem accepts_run_change {change : Change} (hkeeps : change.KeepsFormat)
    (hs : accepts s = true) : accepts (s.run change.line).2 = true := by
  rcases Session.run_cases change.line s with ⟨t, hrun, hdone⟩ | ⟨e, t, hrun, -, hreaches⟩
  · rw [hdone]
    exact (stores_of_change hkeeps hrun).accepts
  · rcases keepsFiles_or_stores_of_change hkeeps hrun with hfiles | hstores
    · obtain ⟨p, d, user, c, hin, hc⟩ := accepts_iff.mp hs
      have hkept := hfiles.trans (.of_reaches hreaches)
      exact accepts_iff.mpr ⟨p, d, user, c, hkept.inEffect hin, hc⟩
    · exact (hstores.stay hreaches).accepts

end Command

/-- The session after changes, one after another. -/
def Session.runChanges (s : Session) (changes : List Command.Change) : Session :=
  changes.foldl (fun s change => (s.run change.line).2) s

/-- Changes that keep the format one that the output knows do not lock the session. -/
theorem Command.accepts_runChanges_of_keepsFormat {changes : List Change} (hs : accepts s = true)
    (hkeeps : ∀ change ∈ changes, change.KeepsFormat) :
    accepts (s.runChanges changes) = true := by
  induction changes generalizing s with
  | nil => exact hs
  | cons change rest ih =>
    obtain ⟨hchange, hrest⟩ := List.forall_mem_cons.mp hkeeps
    exact ih (accepts_run_change hchange hs) hrest

/-- **Settings stay accepted.** From settings that are accepted no changes lead to others, unless
one of them gives the name of no format; so whichever change comes next is reached. -/
theorem Command.accepts_runChanges (s : Session) (changes : List Change) (hs : accepts s = true)
    (hkeeps : ∀ change ∈ changes, change.KeepsFormat) :
    accepts (s.runChanges changes) = true ∧
      ∀ next : Change, ∃ c t, prepare ⟨[], []⟩ none (s.runChanges changes) = .ok c t ∧
        program next.line (s.runChanges changes) = next.run c t :=
  have haccepts := accepts_runChanges_of_keepsFormat hs hkeeps
  ⟨haccepts, exists_program_change haccepts⟩

theorem Command.accepts_runChanges_fresh :
    accepts (Session.fresh.runChanges
      [.set "output.format" "json", .set "fetch.timeout" "soon", .reset]) = true := by
  have hkeeps : ∀ change ∈ [Change.set "output.format" "json", .set "fetch.timeout" "soon", .reset],
      change.KeepsFormat := by
    simp only [List.forall_mem_cons]
    exact ⟨fun _ => ⟨.json, by decide⟩, fun h => absurd h (by decide), trivial,
      List.forall_mem_nil _⟩
  exact (accepts_runChanges _ _ (by decide +kernel) hkeeps).1

/-- After the name of no format nothing is accepted, and the usual settings are not reached. -/
theorem Command.not_accepts_of_other_format :
    accepts Session.fresh = true ∧
      (Session.fresh.run (Change.set "output.format" "xml").line).1.code = 0 ∧
      accepts (Session.fresh.runChanges [.set "output.format" "xml"]) = false ∧
      ((Session.fresh.runChanges [.set "output.format" "xml"]).run
        Change.reset.line).1.code = 2 := by
  decide +kernel

end Raml
