import Raml.Proofs.Command.Failed
import Raml.Proofs.Session.Silent

/-!
# What comes before the last step

A line that calls something on a definition settles the output and finds the definition before it
writes anything. `output?` and `definition?` say what these come to, and if there are both, every
step before the last one succeeds and leaves the results alone (`exists_start`, `exists_api`).
-/

namespace Raml.Command

variable {α : Type} {s t : Session} {l : Line} {c : Setting} {source : String} {a : Api}

theorem silent_ofAction {x : Action α} (h : Silent x) : Silent (ofAction x) :=
  fun s t a hrun => h s t a (ofAction_eq_ok.mp hrun)

/-- The output that the line and the settings in effect come to. -/
def output? (s : Session) (l : Line) : Option Output :=
  match timeoutOf l s with
  | .error _ _ => none
  | .ok timeout s =>
    match prepare l timeout s with
    | .error _ _ => none
    | .ok c _ => some c.output

theorem silent_prepare (l : Line) (timeout : Option Value) : Silent (prepare l timeout) := by
  refine (silent_ofAction (Settings.silent_effective _)).bind fun settings => ?_
  split
  · exact .throw _
  · exact Silent.get.bind fun _ => .pure _

/-- Nothing but a file that a command is given keeps its output from the results. -/
theorem file_of_prepare {timeout : Option Value} (h : prepare l timeout s = .ok c t) :
    c.output.file = none := by
  obtain ⟨settings, f, -, -, rfl⟩ := prepare_eq_ok.mp h
  rfl

/-- Where there is a definition, the steps before the command succeed, and the definition is found
with what they settled. -/
theorem exists_start (ha : definition? s l source = some a) :
    ∃ timeout c t, timeoutOf l s = .ok timeout s ∧ prepare l timeout s = .ok c t ∧
      output? s l = some c.output ∧ t.results = s.results ∧
      ∃ j, Access.parse ⟨t.world.store, c.settings.fetch⟩ source .empty = .ok a j := by
  unfold definition? at ha
  unfold output?
  -- a definition is there only if all the steps before it came through
  cases htimeout : timeoutOf l s with
  | error e t =>
    rw [htimeout] at ha
    cases ha
  | ok timeout s₁ =>
    obtain rfl : s₁ = s := of_timeoutOf htimeout
    rw [htimeout] at ha
    cases hprepare : prepare l timeout s₁ with
    | error e t =>
      simp only [hprepare] at ha
      cases ha
    | ok c t =>
      simp only [hprepare] at ha ⊢
      refine ⟨timeout, c, t, rfl, hprepare, rfl, silent_prepare l timeout _ _ _ hprepare, ?_⟩
      split at ha
      · rename_i b j hparse
        rw [Option.some.inj ha] at hparse
        exact ⟨j, hparse⟩
      · cases ha

/-- Warnings can always be given. -/
theorem exists_warnings (warnings : List String) (s : Session) :
    ∃ t, (forIn warnings PUnit.unit fun words _ => do
      ofAction (Action.remark (Notice.warning words).plain)
      pure (ForInStep.yield PUnit.unit) : Command PUnit) s = .ok PUnit.unit t ∧
        t.results = s.results := by
  induction warnings generalizing s with
  | nil => exact ⟨s, rfl, rfl⟩
  | cons words rest ih =>
    obtain ⟨t, hrest, hresults⟩ :=
      ih { s with remarks := s.remarks ++ (Notice.warning words).plain ++ "\n" }
    refine ⟨t, ?_, hresults⟩
    rw [List.forIn_cons]
    exact hrest

/-- A document that can be parsed gets to the command, and nothing is written on the way. -/
theorem exists_api {j : Journal}
    (h : Access.parse ⟨s.world.store, c.settings.fetch⟩ source .empty = .ok a j) :
    ∃ t, api c source s = .ok a t ∧ t.results = s.results := by
  have hload : Action.load c.settings.fetch (fun access => access.parse source) s =
      .ok (.ok a, j) { s with visited := s.visited ++ j.locations } := by
    have hget : (get : Action Session) s = .ok s s := rfl
    unfold Action.load
    rw [bind_of_ok hget]
    beta_reduce
    rw [h]
    rfl
  obtain ⟨t, hwarnings, hresults⟩ :=
    exists_warnings j.warnings { s with visited := s.visited ++ j.locations }
  refine ⟨t, ?_, hresults⟩
  unfold api
  refine (bind_of_ok (ofAction_eq_ok.mpr hload)).trans ?_
  exact (bind_of_ok hwarnings).trans rfl

/-- A session in a folder with a document, where the folder of the settings is found. -/
def holding (document : String) : Session :=
  .start ⟨⟨["work"], [("work", .folder), ("work/xdg", .folder), ("work/xdg/ramlkit", .folder),
      ("work/api.raml", .file (Text.Utf8.encode document))]⟩, []⟩
    [("NO_COLOR", "1"), ("XDG_CONFIG_HOME", "xdg"), ("HOME", "/work")]

end Raml.Command
