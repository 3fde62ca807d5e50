import Raml.Proofs.Command.Given
import Raml.Proofs.Session.Kept

/-!
# Commands that fail

No step of a command takes back what an earlier one did, so a command that fails has changed nothing
only if what can fail comes before what changes a file. That is so for each of them: it keeps the
files until it writes one, and telling the user of it afterwards cannot fail, as long as no colours
are asked for. `keepsFiles_of_program_error` says it of the program, by way of the commands it can
call. What is left is how the program ends: every failure has a code other than nought
(`FailsWithCode`), and a definition that is not found is a failure before anything is written.

A command that does not fail and gives a setting a new value is followed in the other direction,
from the settings it found to those that are found afterwards.
-/

namespace Raml

namespace Command

variable {α : Type} {a : Action α}

/-! ## Actions as steps of a command -/

theorem keeps_ofAction (h : Keeps a) : Keeps (ofAction a) where
  ok hrun := h.ok (ofAction_eq_ok.mp hrun)
  error hrun := by
    obtain ⟨e, hrun, -⟩ := ofAction_eq_error.mp hrun
    exact h.error hrun

theorem failsKeeping_ofAction (h : FailsKeeping a) : FailsKeeping (ofAction a) := by
  intro s t e hrun
  obtain ⟨e', hrun, -⟩ := ofAction_eq_error.mp hrun
  exact h _ _ _ hrun

theorem neverFails_ofAction (h : NeverFails a) : NeverFails (ofAction a) := by
  intro s t e hrun
  obtain ⟨e', hrun, -⟩ := ofAction_eq_error.mp hrun
  exact h _ _ _ hrun

/-! ## Lines -/

/-- Reading a line of arguments looks at no file. -/
theorem keeps_readLine (known : List Switch) (mixed : Bool) (args : List String) :
    Keeps (readLine known mixed args) := by
  rw [readLine]
  split
  · exact .throw _
  · split
    · exact .throw _
    · exact .pure _

theorem keeps_readArguments (known : List Switch) (count : Nat) (args : List String) :
    Keeps (readArguments known count args) := by
  refine (keeps_readLine known true args).bind fun l => ?_
  split
  · exact .pure _
  · exact .throw _

theorem keeps_answerSwitches (l : Line) : Keeps (answerSwitches l) := by
  rw [answerSwitches]
  split
  · exact (keeps_ofAction (Action.keeps_write _)).bind fun _ => .throw _
  · exact .throw _
  · exact .pure _

theorem keeps_readProgramLine (args : List String) : Keeps (readProgramLine args) := by
  rw [readProgramLine]
  split
  · exact .throw _
  · exact (keeps_answerSwitches _).bind fun _ => .pure _

theorem keeps_timeoutOf (l : Line) : Keeps (timeoutOf l) := by
  rw [timeoutOf]
  split
  · exact .pure _
  · split
    · exact .pure _
    · exact .throw _

/-- What every command does before its own work keeps the files. -/
theorem keeps_prepare (l : Line) (timeout : Option Value) : Keeps (prepare l timeout) := by
  refine (keeps_ofAction (Settings.keeps_effective _)).bind fun settings => ?_
  split
  · exact .throw _
  · exact Keeps.get.bind fun _ => .pure _

/-! ## What commands do -/

section Commands

variable (c : Setting) (args : List String)

theorem keeps_refuse (o : Output) (words : String) (code : Nat) : Keeps (refuse o words code) :=
  (keeps_ofAction (o.keeps_tell _)).bind fun _ => .throw _

/-- The warnings of a document go beside the results and change no file. -/
theorem keeps_warnings (warnings : List String) :
    Keeps (forIn warnings PUnit.unit fun words _ => do
      ofAction (Action.remark (Notice.warning words).plain)
      pure (ForInStep.yield PUnit.unit) : Command PUnit) := by
  induction warnings with
  | nil => exact .pure _
  | cons words rest ih =>
    rw [List.forIn_cons]
    refine Keeps.bind ((keeps_ofAction (Action.keeps_remark _)).bind fun _ => .pure _) fun r => ?_
    split
    · exact .pure _
    · exact ih

theorem keeps_api (source : String) : Keeps (api c source) := by
  refine (keeps_ofAction (Action.keeps_load _ _)).bind fun r => ?_
  dsimp only
  refine (keeps_warnings _).bind fun _ => ?_
  split
  · exact .pure _
  · exact .throw _

theorem failsKeeping_showSettings : FailsKeeping (showSettings c args) := by
  refine .bind (keeps_readArguments _ _ _) fun _ => ?_
  refine .bind (keeps_ofAction Settings.keeps_folder) fun _ => ?_
  refine .bind (keeps_ofAction (c.output.keeps_tell _)) fun _ => ?_
  exact failsKeeping_ofAction (c.output.failsKeeping_respond _)

/-- Without colours, a change that fails has not saved anything. -/
theorem failsKeeping_changeSetting (hplain : c.output.colours = false) :
    FailsKeeping (changeSetting c args) := by
  refine .bind (keeps_readArguments _ _ _) fun l => ?_
  refine .bind (keeps_ofAction Settings.keeps_load) fun user => ?_
  split
  · exact (keeps_refuse _ _ _).failsKeeping
  · exact .before (failsKeeping_ofAction (Settings.failsKeeping_save _))
      fun _ => neverFails_ofAction (Output.neverFails_tell hplain _)

theorem keeps_askWith (question : String) (lines : List String) :
    Keeps (askWith question lines) := by
  induction lines with
  | nil =>
    refine (keeps_ofAction (Action.keeps_write _)).bind fun _ => ?_
    refine Keeps.bind (.modify ?_) fun _ => .throw _
    exact fun _ => ⟨rfl, rfl, rfl⟩
  | cons line rest ih =>
    refine (keeps_ofAction (Action.keeps_write _)).bind fun _ => ?_
    dsimp only
    split
    · refine Keeps.bind (.modify ?_) fun _ => .pure _
      exact fun _ => ⟨rfl, rfl, rfl⟩
    · exact (keeps_ofAction (Action.keeps_write _)).bind fun _ => ih

/-- Settings are put back once that is agreed to. -/
theorem failsKeeping_resetIf (hplain : c.output.colours = false) (agreed : Bool) :
    FailsKeeping (if agreed then do
      Settings.save .usual
      c.output.tell (.success "Configuration reset to defaults.")
    else c.output.tell (.info "Cancelled.") : Command Unit) := by
  split
  · exact .before (failsKeeping_ofAction (Settings.failsKeeping_save _))
      fun _ => neverFails_ofAction (Output.neverFails_tell hplain _)
  · exact (keeps_ofAction (c.output.keeps_tell _)).failsKeeping

/-- Without colours, a reset that fails has not saved anything. -/
theorem failsKeeping_resetSettings (hplain : c.output.colours = false) :
    FailsKeeping (resetSettings c args) := by
  refine .bind (keeps_readArguments _ _ _) fun l => ?_
  dsimp only
  split
  · exact .bind (.pure _) (failsKeeping_resetIf c hplain)
  · exact .bind (Keeps.get.bind fun s => keeps_askWith _ _) (failsKeeping_resetIf c hplain)

theorem failsKeeping_writeResult {o : Output} (hplain : o.colours = false) (file : String)
    (v : Value) : FailsKeeping (writeResult o file v) :=
  .before (failsKeeping_ofAction (Output.failsKeeping_writeTo file v))
    fun _ => neverFails_ofAction (Output.neverFails_tell hplain _)

theorem failsKeeping_resolve (hplain : c.output.colours = false) :
    FailsKeeping (resolve c args) := by
  refine .bind (keeps_readArguments _ _ _) fun l => .bind (keeps_api c _) fun a => ?_
  refine .bind (keeps_ofAction (.ofExcept _)) fun v => ?_
  dsimp only
  split
  · refine .bind (keeps_ofAction (.ofExcept _)) fun text => ?_
    split
    · exact (keeps_ofAction (Action.keeps_write _)).failsKeeping
    · exact failsKeeping_writeResult hplain _ _
  · split
    · exact failsKeeping_ofAction (c.output.failsKeeping_respond _)
    · exact failsKeeping_writeResult hplain _ _

theorem failsKeeping_sheetOr (o : Output) (nothing : String) (s : Sheet) :
    FailsKeeping (sheetOr o nothing s) := by
  rw [sheetOr]
  split
  · exact (o.keeps_tell _).failsKeeping
  · exact (o.keeps_presentSheet _).failsKeeping

theorem failsKeeping_view {shown : Output → Api → Action Unit}
    (h : ∀ o a, FailsKeeping (shown o a)) : FailsKeeping (view c shown args) :=
  .bind (keeps_readArguments _ _ _) fun _ => .bind (keeps_api c _) fun a =>
    failsKeeping_ofAction (h c.output a)

theorem failsKeeping_views : ∀ v ∈ views, ∀ o a, FailsKeeping (v.2 o a) := by
  simp only [views, List.forall_mem_cons]
  refine ⟨fun o a => o.failsKeeping_respond _, fun o a => (o.keeps_presentSheet _).failsKeeping,
    fun o a => (o.keeps_presentSheet _).failsKeeping,
    fun o a => .bind (.ofExcept _) fun _ => failsKeeping_sheetOr _ _ _,
    fun o a => failsKeeping_sheetOr _ _ _, List.forall_mem_nil _⟩

/-- A group of commands keeps the files on failure if each of its commands does. -/
theorem failsKeeping_runGroup {commands : List (String × (Setting → List String → Command Unit))}
    (h : ∀ e ∈ commands, ∀ args, FailsKeeping (e.2 c args)) :
    FailsKeeping (runGroup commands c args) := by
  rw [runGroup]
  split
  · exact failsKeeping_throw_bind _ _
  · refine .bind (keeps_readLine _ _ _) fun l => ?_
    split
    · exact (Keeps.throw _).failsKeeping
    · split
      · next hrun => exact h _ (mem_of_lookup hrun) _
      · exact .bind (keeps_readLine _ _ _) fun _ => (Keeps.throw _).failsKeeping

end Commands

/-! ## The program -/

/-- Whatever command a name stands for, it keeps the files if it fails, as long as nothing is
coloured. -/
theorem failsKeeping_entry {name : String} {entry : Entry} (h : (name, entry) ∈ entries)
    {c : Setting} (hplain : c.output.colours = false) (args : List String) :
    FailsKeeping (entry.run c args) := by
  simp only [entries, List.mem_cons, Prod.mk.injEq, List.not_mem_nil, or_false] at h
  rcases h with ⟨-, rfl⟩ | ⟨-, rfl⟩ | ⟨-, rfl⟩
  · exact failsKeeping_resolve c args hplain
  · refine failsKeeping_runGroup c args fun e he args => ?_
    obtain ⟨v, hv, rfl⟩ := List.mem_map.mp he
    exact failsKeeping_view c args (failsKeeping_views v hv)
  · refine failsKeeping_runGroup c args ?_
    simp only [List.forall_mem_cons]
    exact ⟨failsKeeping_showSettings c, fun args => failsKeeping_changeSetting c args hplain,
      fun args => failsKeeping_resetSettings c args hplain, List.forall_mem_nil _⟩

/-- Where the surroundings allow no colours, nothing is reported in colours. -/
theorem colours_outputFor (args : List String) {s : Session}
    (h : allowsColours s.environment = false) : (outputFor args s).colours = false := by
  have hplain {t : Session} (ht : s.KeepsFiles t) {f : Format} {b q v : Bool}
      {file : Option String} :
      (Output.forSession t f b q v file).colours = false := by
    change (!b && allowsColours t.environment) = false
    rw [ht.environment, h, Bool.and_false]
  rw [outputFor]
  cases hsetting : settingOf args s with
  | error e t => exact hplain (.refl s)
  | ok c t =>
    -- whatever came before, the environment that decides on colours is the one at the start
    obtain ⟨l, s₁, hline, hrest⟩ := of_run_bind hsetting
    obtain ⟨timeout, s₂, htimeout, hprepare⟩ := of_run_bind hrest
    obtain ⟨settings, f, heffective, -, rfl⟩ := prepare_eq_ok.mp hprepare
    exact hplain ((((keeps_readProgramLine args).ok hline).trans
      ((keeps_timeoutOf l).ok htimeout)).trans
      ((keeps_ofAction (Settings.keeps_effective _)).ok heffective))

/-- A line without colours that fails keeps the files. -/
theorem keepsFiles_of_program_error {args : List String} {s t : Session} {e : Ending}
    (hplain : (outputFor args s).colours = false) (h : program args s = .error e t) :
    s.KeepsFiles t := by
  cases hempty : args.isEmpty with
  | true =>
    rw [program, hempty, if_pos rfl] at h
    exact failsKeeping_throw_bind _ _ _ _ _ h
  | false =>
    rw [program, hempty, if_neg Bool.false_ne_true] at h
    rcases of_run_bind_error h with hline | ⟨l, s₁, hline, h⟩
    · exact (keeps_readProgramLine args).error hline
    refine ((keeps_readProgramLine args).ok hline).trans ?_
    rcases of_run_bind_error h with htimeout | ⟨timeout, s₂, htimeout, h⟩
    · exact (keeps_timeoutOf l).error htimeout
    refine ((keeps_timeoutOf l).ok htimeout).trans ?_
    cases hothers : l.others with
    | nil =>
      rw [hothers] at h
      exact (Keeps.throw _).error h
    | cons name rest =>
      rw [hothers] at h
      dsimp only at h
      cases hentry : entries.lookup name with
      | none =>
        rw [hentry] at h
        exact ((keeps_readProgramLine _).bind fun _ => .throw _).error h
      | some entry =>
        rw [hentry] at h
        -- only here is there a command, and its output is that of the line
        rcases of_run_bind_error h with hprepare | ⟨c, s₃, hprepare, h⟩
        · exact (keeps_prepare l timeout).error hprepare
        have hsetting : settingOf args s = .ok c s₃ :=
          (bind_of_ok hline).trans ((bind_of_ok htimeout).trans hprepare)
        rw [outputFor, hsetting] at hplain
        exact ((keeps_prepare l timeout).ok hprepare).trans
          (failsKeeping_entry (mem_of_lookup hentry) hplain _ _ _ _ h)

/-- An error that ends a command gives it an exit code that is not nought. -/
theorem code_failed (e : Error) : (Ending.failed e).code ≠ 0 := by
  cases e <;> simp [Ending.code, Error.exitCode?]

end Command

/-! ## How the program ends -/

namespace Session

/-- A run is that of the program; an error is reported at its end, which changes nothing else and
does not take back that there was one. -/
theorem run_cases (args : List String) (s : Session) :
    (∃ t, Command.program args s = .ok () t ∧ s.run args = (.done 0, t)) ∨
      ∃ e t, Command.program args s = .error e t ∧
        (e.code ≠ 0 → (s.run args).1.code ≠ 0) ∧ t.Reaches t.world.disk (s.run args).2 := by
  rw [run]
  split
  · next t hrun => exact .inl ⟨t, hrun, rfl⟩
  · next e t hrun =>
    refine .inr ⟨.failed e, t, hrun, ?_⟩
    rcases (Command.outputFor args s).tell_cases (.error e.report) t with
      ⟨t', htell, hreaches⟩ | ⟨-, htell⟩
    · rw [htell]
      exact ⟨id, hreaches⟩
    · rw [htell]
      exact ⟨fun _ => Command.code_failed _, .refl t⟩
  · next e t hne hrun => exact .inr ⟨e, t, hrun, id, .refl t⟩

variable {args : List String} {s : Session}

/-- A line without colours that does not come to its end keeps the files. -/
theorem keepsFiles_of_not_ok (hplain : (Command.outputFor args s).colours = false)
    (h : ∀ t, Command.program args s ≠ .ok () t) : s.KeepsFiles (s.run args).2 := by
  rcases run_cases args s with ⟨t, hrun, -⟩ | ⟨e, t, hrun, -, hreaches⟩
  · exact absurd hrun (h t)
  · exact (Command.keepsFiles_of_program_error hplain hrun).trans (.of_reaches hreaches)

/-- Without colours, a run whose exit code is not nought has left the files as they were. -/
theorem keepsFiles_of_code (hplain : (Command.outputFor args s).colours = false)
    (h : (s.run args).1.code ≠ 0) : s.KeepsFiles (s.run args).2 := by
  refine keepsFiles_of_not_ok hplain fun t hrun => ?_
  rcases run_cases args s with ⟨t', -, hdone⟩ | ⟨e, t', herror, -⟩
  · rw [hdone] at h
    exact h rfl
  · cases hrun.symm.trans herror

end Session

namespace Command

/-- Whether a line calls for the definition at `source` to be resolved and written to a file. -/
def CallsResolve (args : List String) (l : Line) (source file : String) : Prop :=
  ∃ rest last, Calls args l "resolve" rest ∧ Takes resolveSwitches true rest last ∧
    last.others = [source] ∧ last.value? "--output" = some file

/-- The definition that is found at `source` with the settings that are then in effect. -/
def definition? (s : Session) (l : Line) (source : String) : Option Api :=
  match timeoutOf l s with
  | .error _ _ => none
  | .ok timeout s =>
    match prepare l timeout s with
    | .error _ _ => none
    | .ok c s =>
      match Access.parse ⟨s.world.store, c.settings.fetch⟩ source .empty with
      | .ok a _ => some a
      | .error _ _ => none

/-- The result of reading documents is that of the step that reads them. -/
theorem of_load_ok {settings : FetchSettings} {step : Access → Load α} {s t : Session}
    {result : Except Error α × Journal} {x : α} (h : Action.load settings step s = .ok result t)
    (hx : result.1 = .ok x) : ∃ j, step ⟨s.world.store, settings⟩ .empty = .ok x j := by
  obtain ⟨s₁, s₂, hget, hrest⟩ := of_run_bind h
  cases hget
  cases hstep : step ⟨s.world.store, settings⟩ .empty with
  | ok y j =>
    simp only [hstep] at hrest
    cases hrest
    cases hx
    exact ⟨j, rfl⟩
  | error e j =>
    simp only [hstep] at hrest
    cases hrest
    cases hx

/-- A command that got hold of a document has parsed it. -/
theorem exists_parse_of_api {c : Setting} {source : String} {s t : Session} {a : Api}
    (h : api c source s = .ok a t) :
    ∃ j, Access.parse ⟨s.world.store, c.settings.fetch⟩ source .empty = .ok a j := by
  obtain ⟨⟨result, journal⟩, s₁, hload, hrest⟩ := of_run_bind h
  obtain ⟨-, s₂, -, hresult⟩ := of_run_bind hrest
  cases result with
  | ok b =>
    cases hresult
    exact of_load_ok (ofAction_eq_ok.mp hload) rfl
  | error e => cases hresult

/-- A definition that is not found is not written anywhere. -/
theorem not_program_of_definition? {args : List String} {l : Line} {source file : String}
    {s : Session} (h : CallsResolve args l source file) (hnone : definition? s l source = none)
    (t : Session) : program args s ≠ .ok () t := by
  intro hrun
  -- the run is followed to where the document is parsed, which it cannot be
  obtain ⟨rest, last, hcalls, hlast, hothers, -⟩ := h
  rw [program_of_calls hcalls rfl] at hrun
  obtain ⟨timeout, s₁, htimeout, hrest⟩ := of_run_bind hrun
  obtain ⟨c, s₂, hprepare, hcommand⟩ := of_run_bind hrest
  obtain ⟨l', s₃, hline, hapi⟩ := of_run_bind hcommand
  obtain ⟨htakes, -, rfl⟩ := readArguments_eq_ok.mp hline
  obtain rfl := Option.some.inj (htakes.read.symm.trans hlast.read)
  obtain ⟨a, s₄, hrun, -⟩ := of_run_bind hapi
  rw [hothers, List.headD_cons] at hrun
  obtain ⟨j, hparse⟩ := exists_parse_of_api hrun
  rw [definition?, htimeout] at hnone
  dsimp only at hnone
  rw [hprepare] at hnone
  dsimp only at hnone
  rw [hparse] at hnone
  cases hnone

/-! ## Codes of failures -/

/-- Whether a step that fails ends the program with a code that says so. -/
def FailsWithCode (m : Command α) : Prop := ∀ s t e, m s = .error e t → e.code ≠ 0

theorem failsWithCode_ofAction : FailsWithCode (ofAction a) := by
  intro s t e h
  obtain ⟨e, -, rfl⟩ := ofAction_eq_error.mp h
  exact code_failed e

theorem failsWithCode_throw {e : Ending} (h : e.code ≠ 0) :
    FailsWithCode (throw e : Command α) := by
  intro s t e' hrun
  cases hrun
  exact h

theorem failsWithCode_pure (x : α) : FailsWithCode (pure x : Command α) := nofun

theorem FailsWithCode.bind {β : Type} {m : Command α} {f : α → Command β} (hm : FailsWithCode m)
    (hf : ∀ x, FailsWithCode (f x)) : FailsWithCode (m >>= f) := by
  intro s t e h
  rcases of_run_bind_error h with hfirst | ⟨x, s₁, -, hsecond⟩
  · exact hm _ _ _ hfirst
  · exact hf x _ _ _ hsecond

theorem failsWithCode_timeoutOf (l : Line) : FailsWithCode (timeoutOf l) := by
  rw [timeoutOf]
  split
  · exact failsWithCode_pure _
  · split
    · exact failsWithCode_pure _
    · exact failsWithCode_throw (by decide)

theorem failsWithCode_prepare (l : Line) (timeout : Option Value) :
    FailsWithCode (prepare l timeout) := by
  refine failsWithCode_ofAction.bind fun settings => ?_
  split
  · exact failsWithCode_throw (code_failed _)
  · exact FailsWithCode.bind (fun _ _ _ h => nomatch h) fun _ => failsWithCode_pure _

theorem failsWithCode_giveSetting (o : Output) (key text : String) :
    FailsWithCode (giveSetting o key text) := by
  refine failsWithCode_ofAction.bind fun user => ?_
  split
  · exact failsWithCode_ofAction.bind fun _ => failsWithCode_throw (by decide)
  · exact failsWithCode_ofAction.bind fun _ => failsWithCode_ofAction

/-- A line that calls for a setting to get a new value, and ends well, has given it that. -/
theorem exists_changes_of_code {args : List String} {l : Line} {key text : String} {s : Session}
    (h : CallsSet args l key text) (hcode : (s.run args).1.code = 0) :
    ∃ old s₁ v new t₁, Settings.load s = .ok old s₁ ∧
      Settings.load (s.run args).2 = .ok new t₁ ∧ old.Changes key text v new := by
  have hprogram := program_of_callsSet h s
  rcases Session.run_cases args s with ⟨t, hrun, hdone⟩ | ⟨e, t, hrun, hfails, -⟩
  · rw [hdone]
    rw [hprogram] at hrun
    obtain ⟨timeout, s₁, htimeout, hrest⟩ := of_run_bind hrun
    obtain ⟨c, s₂, hprepare, hgive⟩ := of_run_bind hrest
    obtain rfl := of_timeoutOf htimeout
    obtain ⟨p, d, old, hin, -, hreaches⟩ := of_prepare hprepare
    have hfinds : Settings.Finds s₂ p s₂.world.disk := by
      rw [hreaches.disk]
      exact hin.finds.again hreaches
    have hholds : Settings.Holds s₂.world.disk (Settings.fileIn p) old := by
      rw [hreaches.disk]
      exact hin.holds
    obtain ⟨v, new, d', hset, hsaves, hsaved⟩ := of_giveSetting hfinds hholds hgive
    obtain ⟨s', hload, -⟩ := Settings.exists_load hin.finds hin.holds
    -- what is loaded afterwards is what was saved
    have hfinds' : Settings.Finds t p d' := Settings.Finds.of_saves hsaves hfinds hsaved
    obtain ⟨t', hload', -⟩ := Settings.exists_load hfinds' (Settings.holds_of_saves hsaves)
    exact ⟨old, s', v, new, t', hload, hload', Settings.set_spec hset⟩
  · -- every way to fail has a code
    rw [hprogram] at hrun
    refine absurd hcode (hfails ((failsWithCode_timeoutOf l).bind (fun timeout => ?_) _ _ _ hrun))
    exact (failsWithCode_prepare l timeout).bind fun c => failsWithCode_giveSetting _ _ _

end Command

/-- **Commands that fail change nothing, and one that sets a value changes one setting.** Let errors
be reported without colours. A line that ends with a code other than nought keeps every file, and so
does one that asks for a definition to be written that is not found. After a line that gives a
setting a new value, the settings that are loaded are the old ones but for that one. -/
theorem Session.files_of_run (args : List String) (s : Session)
    (hplain : (Command.outputFor args s).colours = false) :
    ((s.run args).1.code ≠ 0 →
      s.KeepsFiles (s.run args).2 ∧ s.world.disk.GainsFolders (s.run args).2.world.disk) ∧
    (∀ l source file, Command.CallsResolve args l source file →
      Command.definition? s l source = none →
      s.KeepsFiles (s.run args).2 ∧ s.world.disk.GainsFolders (s.run args).2.world.disk) ∧
    ∀ l key text, Command.CallsSet args l key text → (s.run args).1.code = 0 →
      ∃ old s₁ v new t₁, Settings.load s = .ok old s₁ ∧
        Settings.load (s.run args).2 = .ok new t₁ ∧ old.Changes key text v new := by
  refine ⟨fun hcode => ?_, fun l source file hcalls hnone => ?_, fun l key text hcalls hcode => ?_⟩
  · have hkeeps := Session.keepsFiles_of_code hplain hcode
    exact ⟨hkeeps, hkeeps.gainsFolders⟩
  · have hkeeps :=
      Session.keepsFiles_of_not_ok hplain (Command.not_program_of_definition? hcalls hnone)
    exact ⟨hkeeps, hkeeps.gainsFolders⟩
  · exact Command.exists_changes_of_code hcalls hcode

/-- A session in an empty folder. -/
def Session.fresh : Session :=
  .start ⟨⟨["work"], [("work", .folder)]⟩, []⟩
    [("NO_COLOR", "1"), ("XDG_CONFIG_HOME", "xdg"), ("HOME", "/work")]

/-- A value that is none, a source that is not there, and a value that is one. -/
theorem Session.files_of_run_fresh :
    Session.fresh.KeepsFiles (Session.fresh.run ["config", "set", "fetch.timeout", "soon"]).2 ∧
    Session.fresh.KeepsFiles (Session.fresh.run ["resolve", "missing.raml", "-o", "out.json"]).2 ∧
    ∃ old s₁ v new t₁, Settings.load Session.fresh = .ok old s₁ ∧
      Settings.load (Session.fresh.run ["config", "set", "fetch.timeout", "10"]).2 = .ok new t₁ ∧
      old.Changes "fetch.timeout" "10" v new := by
  -- a fresh session has no terminal, so nothing is coloured
  have hplain (args : List String) : (Command.outputFor args fresh).colours = false :=
    Command.colours_outputFor args rfl
  refine ⟨((files_of_run _ _ (hplain _)).1 (by decide +kernel)).1, ?_, ?_⟩
  · have hnone : Command.definition? Session.fresh
        ⟨[], ["resolve", "missing.raml", "-o", "out.json"]⟩ "missing.raml" = none :=
      Option.isNone_iff_eq_none.mp (by decide +kernel)
    have hcalls : Command.CallsResolve ["resolve", "missing.raml", "-o", "out.json"]
        ⟨[], ["resolve", "missing.raml", "-o", "out.json"]⟩ "missing.raml" "out.json" :=
      ⟨_, ⟨[("--output", "out.json")], ["missing.raml"]⟩, ⟨by decide, rfl, by decide, by decide⟩,
        ⟨by decide, by decide⟩, rfl, by decide⟩
    exact ((files_of_run _ _ (hplain _)).2.1 _ _ _ hcalls hnone).1
  · have hcalls : Command.CallsSet ["config", "set", "fetch.timeout", "10"]
        ⟨[], ["config", "set", "fetch.timeout", "10"]⟩ "fetch.timeout" "10" :=
      ⟨_, ⟨[], ["set", "fetch.timeout", "10"]⟩, _, ⟨[], ["fetch.timeout", "10"]⟩,
        ⟨by decide, rfl, by decide, by decide⟩, ⟨by decide, by decide⟩, rfl,
        ⟨by decide, by decide⟩, rfl⟩
    exact (files_of_run _ _ (hplain _)).2.2 _ _ _ hcalls (by decide +kernel)

/-- Where the folder of the settings is to be, a folder is made although nothing is found at the
source. -/
theorem Session.folder_of_failed_run :
    Command.definition? Session.fresh ⟨[], ["resolve", "missing.raml", "-o", "xdg/ramlkit"]⟩
        "missing.raml" = none ∧
      (Session.fresh.run ["resolve", "missing.raml", "-o", "xdg/ramlkit"]).1.code = 3 ∧
      Session.fresh.world.disk.find (Path.ofString "xdg/ramlkit") = .error .missing ∧
      (Session.fresh.run ["resolve", "missing.raml", "-o", "xdg/ramlkit"]).2.world.disk.isFolder
        (Path.ofString "xdg/ramlkit") = true :=
  ⟨Option.isNone_iff_eq_none.mp (by decide +kernel), by decide +kernel, rfl, by decide +kernel⟩

end Raml
