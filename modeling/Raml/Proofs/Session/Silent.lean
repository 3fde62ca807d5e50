import Raml.Output.Basic
import Raml.Proofs.Session.Steps
import Raml.Settings.Layers

/-!
# Steps that write no results

Everything that comes before the last step of a command leaves the results alone: looking at files,
making the folder of the settings, reading documents and saying something beside the results. So
what a command has written in the end is what its last step wrote. `Silent` says it of a step that
succeeds; what a failed step has written does not matter to anybody here.
-/

namespace Raml

/-- Whether a step leaves the results as they are, if it succeeds. -/
def Silent {ε α : Type} (m : EStateM ε Session α) : Prop :=
  ∀ s t a, m s = .ok a t → t.results = s.results

namespace Silent

variable {ε α β : Type} {m : EStateM ε Session α} {f : α → EStateM ε Session β}

theorem pure (a : α) : Silent (pure a : EStateM ε Session α) := by
  intro s t b h
  cases h
  rfl

theorem throw (e : ε) : Silent (throw e : EStateM ε Session α) := fun _ _ _ h => nomatch h

theorem get : Silent (get : EStateM ε Session Session) := by
  intro s t b h
  cases h
  rfl

theorem modify {g : Session → Session} (h : ∀ s, (g s).results = s.results) :
    Silent (modify g : EStateM ε Session PUnit) := by
  intro s t a hrun
  cases hrun
  exact h s

theorem ofExcept (x : Except ε α) : Silent (ofExcept x : EStateM ε Session α) := by
  cases x with
  | ok a => exact .pure a
  | error e => exact .throw e

/-- A sequence is silent if its steps are. -/
theorem bind (hm : Silent m) (hf : ∀ a, Silent (f a)) : Silent (m >>= f) := by
  intro s t b h
  obtain ⟨a, s₁, hfirst, hsecond⟩ := of_run_bind h
  exact (hf a s₁ t b hsecond).trans (hm s s₁ a hfirst)

end Silent

/-! ## The steps of a session -/

namespace Action

variable {α : Type} (p : Path)

/-- Looking at a file writes no results. -/
theorem silent_look (f : Disk → Except FileFault α) : Silent (look p f) := by
  intro s t a h
  obtain ⟨_, _, rfl⟩ := look_eq_ok.mp h
  rfl

theorem silent_change (f : Disk → Except FileFault Disk) : Silent (change p f) :=
  (silent_look p f).bind fun _ => .modify fun _ => rfl

theorem silent_textAt : Silent (textAt p) := by
  refine (silent_look p _).bind fun bytes => ?_
  split
  · exact .pure _
  · exact .throw _

end Action

namespace Settings

theorem silent_folder : Silent folder := by
  refine Silent.get.bind fun s => (Silent.ofExcept _).bind fun p => ?_
  exact (Action.silent_change p _).bind fun _ => .pure _

theorem silent_readObject (label : String) (p : Path) : Silent (readObject label p) := by
  refine (Action.silent_textAt p).bind fun text => ?_
  split
  · exact .pure _
  · exact .throw _
  · exact .throw _
  · exact .throw _

theorem silent_load : Silent load := by
  refine (silent_folder.bind fun _ => .pure _).bind fun p => ?_
  refine (Action.silent_look p _).bind fun b => ?_
  split
  · exact (silent_readObject _ p).bind fun es => .ofExcept _
  · exact .pure _

theorem silent_loadProject : Silent loadProject := by
  refine Silent.get.bind fun s => (Action.silent_look _ _).bind fun b => ?_
  split
  · exact (silent_readObject _ _).bind fun es => .pure _
  · exact .pure _

/-- Finding out the settings in effect writes no results. -/
theorem silent_effective (o : Overrides) : Silent (effective o) :=
  silent_load.bind fun _ => silent_loadProject.bind fun _ => Silent.get.bind fun _ => .ofExcept _

end Settings

/-! ## Results -/

/-- The session after results were written. -/
def Session.writing (s : Session) (text : String) : Session :=
  { s with results := s.results ++ text }

/-- Results that are written one after the other are written in that order. -/
theorem Session.writing_writing (s : Session) (first second : String) :
    (s.writing first).writing second = s.writing (first ++ second) := by
  unfold writing
  rw [String.append_assoc]

namespace Output

/-- Lines are written one after another, each ended by a newline. -/
theorem writeLines_ok (lines : List String) (s : Session) :
    writeLines (lines.map .ok) s = .ok () (s.writing (String.join (lines.map (· ++ "\n")))) := by
  induction lines generalizing s with
  | nil =>
    have hnothing : s.writing "" = s := by
      unfold Session.writing
      rw [String.append_empty]
    exact congrArg (EStateM.Result.ok ()) hnothing.symm
  | cons line rest ih =>
    have hline : Action.writeLine line s = .ok () (s.writing (line ++ "\n")) := rfl
    have hrun : writeLines ((line :: rest).map .ok) s =
        (Action.writeLine line >>= fun _ => writeLines (rest.map .ok) : Action Unit) s := rfl
    rw [hrun, bind_of_ok hline, ih, Session.writing_writing, List.map_cons, String.join_cons]

end Output
end Raml
