import Raml.Proofs.Command.Lines
import Raml.Proofs.Session.Kept
import Raml.Proofs.Settings.Effective
import Raml.Proofs.Settings.Layers

/-!
# A setting gets a new value

Before a command the settings in effect are read, and have to name a format (`of_prepare`,
`exists_prepare`). A command that gives a setting a new value then reads the settings of the user
from where they were found before, and what it saves are these, with the one setting changed
(`of_giveSetting`).
-/

namespace Raml.Command

open Settings (Finds Holds InEffect Saves fileIn)

variable {s t : Session} {p : Path} {d : Disk} {user : Settings} {c : Setting} {l : Line}
  {timeout : Option Value}

/-! ## What is read before a command -/

/-- Reading the timeout of a line does not touch the session. -/
theorem of_timeoutOf (h : timeoutOf l s = .ok timeout t) : t = s := by
  rw [timeoutOf] at h
  cases hvalue : l.value? "--timeout" with
  | none =>
    rw [hvalue] at h
    cases h
    rfl
  | some text =>
    cases hnumber : Numeral.floating? text with
    | none =>
      simp only [hvalue, hnumber] at h
      cases h
    | some x =>
      simp only [hvalue, hnumber] at h
      cases h
      rfl

/-- A command is prepared if the settings in effect can be read and name a format. -/
theorem prepare_eq_ok : prepare l timeout s = .ok c t ↔ ∃ settings f,
    (Settings.effective ⟨timeout, formatOf l⟩ : Command Settings) s = .ok settings t ∧
    Format.ofName? settings.output.format = some f ∧
    c = ⟨Output.forSession t f (l.has "--no-color") (l.has "--quiet") (l.has "--verbose") none,
      settings⟩ := by
  constructor
  · intro h
    obtain ⟨settings, s₁, heffective, hrest⟩ := of_run_bind h
    cases hformat : Format.ofName? settings.output.format with
    | none =>
      simp only [hformat] at hrest
      cases hrest
    | some f =>
      simp only [hformat] at hrest
      cases hrest
      exact ⟨settings, f, heffective, hformat, rfl⟩
  · rintro ⟨settings, f, heffective, hformat, rfl⟩
    rw [prepare, bind_of_ok heffective, hformat]
    rfl

/-- Preparing a command brings the settings in effect, and their format is one that the output
knows. -/
theorem of_prepare (h : prepare l timeout s = .ok c t) :
    ∃ p d user, InEffect s ⟨timeout, formatOf l⟩ p d user c.settings ∧
      c.settings.KnowsFormat ∧ s.Reaches d t := by
  obtain ⟨settings, f, heffective, hformat, rfl⟩ := prepare_eq_ok.mp h
  obtain ⟨p, d, user, hin, hreaches⟩ := Settings.of_effective (ofAction_eq_ok.mp heffective)
  exact ⟨p, d, user, hin, ⟨f, hformat⟩, hreaches⟩

/-- Settings in effect that name a format are accepted. -/
theorem exists_prepare {settings : Settings}
    (hin : InEffect s ⟨timeout, formatOf l⟩ p d user settings) (hformat : settings.KnowsFormat) :
    ∃ c t, prepare l timeout s = .ok c t ∧ s.Reaches d t := by
  obtain ⟨t, heffective, hreaches⟩ := Settings.exists_effective hin
  obtain ⟨f, hf⟩ := hformat
  exact ⟨_, t, prepare_eq_ok.mpr ⟨settings, f, ofAction_eq_ok.mpr heffective, hf, rfl⟩, hreaches⟩

/-! ## What the command does -/

/-- Loading gives back what the file of the settings holds. -/
theorem load_of_holds {v : Settings} (hfinds : Finds s p s.world.disk)
    (hholds : Holds s.world.disk (fileIn p) user) (h : Settings.load s = .ok v t) :
    v = user ∧ s.Reaches s.world.disk t := by
  obtain ⟨t', hload, hreaches⟩ := Settings.exists_load hfinds hholds
  cases hload.symm.trans h
  exact ⟨rfl, hreaches⟩

/-- Saving goes to the file in the folder where the settings are looked for. -/
theorem save_of_finds {v : Settings} (hfinds : Finds s p s.world.disk)
    (h : Settings.save v s = .ok () t) : ∃ d', Saves s.world.disk p v d' ∧ s.Reaches d' t := by
  obtain ⟨q, d, d', hfinds', hsaves, hreaches⟩ := Settings.of_save h
  obtain rfl := Except.ok.inj (hfinds'.folder.symm.trans hfinds.folder)
  obtain rfl := Except.ok.inj (hfinds'.made.symm.trans hfinds.made)
  exact ⟨d', hsaves, hreaches⟩

/-- A setting that got a new value was one of the settings that were found, and these were saved
with it. -/
theorem of_giveSetting {o : Output} {key text : String} (hfinds : Finds s p s.world.disk)
    (hholds : Holds s.world.disk (fileIn p) user) (h : giveSetting o key text s = .ok () t) :
    ∃ v new d', user.set key text = .ok (v, new) ∧ Saves s.world.disk p new d' ∧
      s.Reaches d' t := by
  obtain ⟨found, s₁, hload, hrest⟩ := of_run_bind h
  obtain ⟨rfl, hreaches⟩ := load_of_holds hfinds hholds (ofAction_eq_ok.mp hload)
  cases hset : found.set key text with
  | error r =>
    simp only [hset] at hrest
    obtain ⟨_, s₂, -, hthrow⟩ := of_run_bind hrest
    cases hthrow
  | ok result =>
    obtain ⟨v, new⟩ := result
    simp only [hset] at hrest
    obtain ⟨_, s₂, hsave, htell⟩ := of_run_bind hrest
    have hfinds₁ : Finds s₁ p s₁.world.disk := hreaches.disk ▸ hfinds.again hreaches
    obtain ⟨d', hsaves, hreaches₂⟩ := save_of_finds hfinds₁ (ofAction_eq_ok.mp hsave)
    have hstay := Output.reaches_of_tell (ofAction_eq_ok.mp htell)
    exact ⟨v, new, d', rfl, hreaches.disk ▸ hsaves, (hreaches.trans hreaches₂).stay hstay⟩

end Raml.Command
