import Raml.Command.Program
import Raml.Proofs.Outcome

/-!
# What a line calls

A line of the program is taken apart three times: up to the command, up to the command of a group,
and for what is left for that. `Calls` and `Takes` say that a line is taken apart and asks for
nothing in place of what it calls; then the program comes down to the command itself.
-/

namespace Raml.Command

variable {args rest : List String} {l : Line} {name : String}

/-! ## Actions as steps of a command -/

section Actions

variable {α : Type} {a : Action α}

theorem ofAction_eq_ok {s t : Session} {x : α} : ofAction a s = .ok x t ↔ a s = .ok x t := by
  rw [ofAction]
  split
  · next h => simp [h]
  · next h => simp [h]

theorem ofAction_eq_error {s t : Session} {e : Ending} :
    ofAction a s = .error e t ↔ ∃ e', a s = .error e' t ∧ e = .failed e' := by
  rw [ofAction]
  split
  · next h => simp [h]
  · next h => simp [h, eq_comm, and_comm]

end Actions

/-! ## Lines taken apart -/

/-- Whether a line of the program calls something by name, with the arguments in `rest`. -/
structure Calls (args : List String) (l : Line) (name : String) (rest : List String) : Prop where
  read : Line.read programSwitches false args = some l
  others : l.others = name :: rest
  /-- Nothing is asked for in place of a command. -/
  version : l.has "--version" = false
  help : l.has "--help" = false

/-- Whether the line of a command is taken apart without a call for help. -/
structure Takes (known : List Switch) (mixed : Bool) (args : List String) (l : Line) : Prop where
  read : Line.read (⟨["--help"], false⟩ :: known) mixed args = some l
  help : l.has "--help" = false

/-- A line with words that are no switches was not read from nothing. -/
theorem ne_nil_of_read {known : List Switch} {mixed : Bool}
    (h : Line.read known mixed args = some l) (hothers : l.others = name :: rest) : args ≠ [] := by
  rintro rfl
  rw [Line.read] at h
  cases h
  cases hothers

/-- What is left of a line stands on it in the same order. -/
theorem sublist_of_read {known : List Switch} {mixed : Bool} {args : List String} {l : Line}
    (h : Line.read known mixed args = some l) : l.others.Sublist args := by
  induction args using Line.read.induct known mixed generalizing l with
  | case1 =>
    rw [Line.read] at h
    cases h
    exact .slnil
  | case2 rest =>
    -- two dashes end the switches, and the rest stands as it is
    rw [Line.read, if_pos rfl] at h
    cases h
    exact List.sublist_cons_self ..
  | case3 arg rest hend hswitch hnone =>
    -- the switch is not known
    rw [Line.read, if_neg hend, if_pos hswitch, hnone] at h
    cases h
  | case4 arg rest hend hswitch found hread ih =>
    rw [Line.read, if_neg hend, if_pos hswitch, hread] at h
    obtain ⟨l', hl', rfl⟩ := Option.map_eq_some_iff.mp h
    exact (ih hl').cons _
  | case5 arg hend hswitch found wanting hread =>
    -- the switch wants a value, and none is left
    rw [Line.read, if_neg hend, if_pos hswitch, hread] at h
    cases h
  | case6 arg hend hswitch found wanting hread value rest ih =>
    -- the value goes with its switch
    rw [Line.read, if_neg hend, if_pos hswitch, hread] at h
    obtain ⟨l', hl', rfl⟩ := Option.map_eq_some_iff.mp h
    exact ((ih hl').cons _).cons _
  | case7 arg rest hend hswitch hmixed ih =>
    -- arguments may stand between switches
    rw [Line.read, if_neg hend, if_neg hswitch, if_pos hmixed] at h
    obtain ⟨l', hl', rfl⟩ := Option.map_eq_some_iff.mp h
    exact (ih hl').cons_cons _
  | case8 arg rest hend hswitch hmixed =>
    -- or else the first of them ends the switches
    rw [Line.read, if_neg hend, if_neg hswitch, if_neg hmixed] at h
    cases h
    exact .refl _

/-- A line that calls a command is read as such by the program. -/
theorem readProgramLine_of_calls (h : Calls args l name rest) (s : Session) :
    readProgramLine args s = .ok l s := by
  have hnone : l.switches.find? (fun e => e.1 == "--version" || e.1 == "--help") = none := by
    have hversion := h.version
    have hhelp := h.help
    simp only [Line.has, List.any_eq_false] at hversion hhelp
    refine List.find?_eq_none.mpr fun e he => ?_
    rw [Bool.or_eq_true, not_or]
    exact ⟨hversion e he, hhelp e he⟩
  have hanswer : answerSwitches l s = .ok () s := by
    rw [answerSwitches, hnone]
    rfl
  rw [readProgramLine, h.read]
  exact bind_of_ok hanswer

/-- A line that calls something runs that, once the settings are read. -/
theorem program_of_calls {e : Entry} (h : Calls args l name rest)
    (he : entries.lookup name = some e) (s : Session) : program args s = (do
      let timeout ← timeoutOf l
      let c ← prepare l timeout
      e.run c rest : Command Unit) s := by
  have hne : args.isEmpty = false := by simpa using ne_nil_of_read h.read h.others
  rw [program, hne, if_neg Bool.false_ne_true]
  beta_reduce
  rw [bind_of_ok (readProgramLine_of_calls h s), h.others]
  dsimp only
  rw [he]

/-- A line that calls something reports its errors with the output that is settled for that. -/
theorem outputFor_of_calls {s t : Session} {timeout : Option Value} {c : Setting}
    (h : Calls args l name rest) (htimeout : timeoutOf l s = .ok timeout s)
    (hprepare : prepare l timeout s = .ok c t) : outputFor args s = c.output := by
  have hsetting : settingOf args s = .ok c t :=
    (bind_of_ok (readProgramLine_of_calls h s)).trans ((bind_of_ok htimeout).trans hprepare)
  rw [outputFor, hsetting]

theorem readLine_eq_ok {known : List Switch} {mixed : Bool} {s t : Session} :
    readLine known mixed args s = .ok l t ↔ Takes known mixed args l ∧ t = s := by
  rw [readLine]
  cases hread : Line.read (⟨["--help"], false⟩ :: known) mixed args with
  | none => exact ⟨nofun, fun h => nomatch hread.symm.trans h.1.read⟩
  | some l' =>
    dsimp only
    cases hhelp : l'.has "--help" with
    | true =>
      refine ⟨nofun, fun h => ?_⟩
      obtain rfl := Option.some.inj (hread.symm.trans h.1.read)
      exact nomatch hhelp.symm.trans h.1.help
    | false =>
      constructor
      · rintro ⟨⟩
        exact ⟨⟨hread, hhelp⟩, rfl⟩
      · rintro ⟨h, rfl⟩
        obtain rfl := Option.some.inj (hread.symm.trans h.read)
        rfl

theorem readArguments_eq_ok {known : List Switch} {count : Nat} {s t : Session} :
    readArguments known count args s = .ok l t ↔
      Takes known true args l ∧ l.others.length = count ∧ t = s := by
  constructor
  · intro h
    obtain ⟨l', s₁, hline, hrest⟩ := of_run_bind h
    obtain ⟨htakes, rfl⟩ := readLine_eq_ok.mp hline
    by_cases hcount : l'.others.length = count
    · rw [if_pos hcount] at hrest
      cases hrest
      exact ⟨htakes, hcount, rfl⟩
    · rw [if_neg hcount] at hrest
      cases hrest
  · rintro ⟨htakes, hcount, rfl⟩
    rw [readArguments, bind_of_ok (readLine_eq_ok.mpr ⟨htakes, rfl⟩), if_pos hcount]
    rfl

/-- A group runs the command that the first word names, on the rest of the line. -/
theorem runGroup_of_takes {commands : List (String × (Setting → List String → Command Unit))}
    {run : Setting → List String → Command Unit} (h : Takes [] false args l)
    (hothers : l.others = name :: rest) (hrun : commands.lookup name = some run) (c : Setting)
    (s : Session) : runGroup commands c args s = run c rest s := by
  have hne : args.isEmpty = false := by simpa using ne_nil_of_read h.read hothers
  rw [runGroup, hne, if_neg Bool.false_ne_true]
  beta_reduce
  rw [bind_of_ok (readLine_eq_ok.mpr ⟨h, rfl⟩), hothers]
  dsimp only
  rw [hrun]

/-! ## Setting a value -/

/-- Whether a line calls for a setting to get a new value. -/
def CallsSet (args : List String) (l : Line) (key text : String) : Prop :=
  ∃ group inner rest last, Calls args l "config" group ∧ Takes [] false group inner ∧
    inner.others = "set" :: rest ∧ Takes [] true rest last ∧ last.others = [key, text]

/-- Gives a setting a new value, once the line is taken apart. -/
def giveSetting (o : Output) (key text : String) : Command Unit := do
  let user ← Settings.load
  match user.set key text with
  | .error r => refuse o r.message 2
  | .ok (v, new) =>
    Settings.save new
    o.tell (.success ("Set " ++ key ++ " = " ++ v.display))

theorem changeSetting_of_takes {key text : String} (h : Takes [] true rest l)
    (hothers : l.others = [key, text]) (c : Setting) (s : Session) :
    changeSetting c rest s = giveSetting c.output key text s := by
  have hread : readArguments [] 2 rest s = .ok l s :=
    readArguments_eq_ok.mpr ⟨h, by rw [hothers, List.length_cons, List.length_singleton], rfl⟩
  rw [changeSetting, bind_of_ok hread, hothers]
  rfl

/-- The line of `config set` comes down to giving a value to a key. -/
theorem program_of_callsSet {key text : String} (h : CallsSet args l key text) (s : Session) :
    program args s = (do
      let timeout ← timeoutOf l
      let c ← prepare l timeout
      giveSetting c.output key text : Command Unit) s := by
  obtain ⟨group, inner, rest, last, hcalls, hinner, hname, hlast, hothers⟩ := h
  have hrun (c : Setting) : Entry.run c group (.group
      [("show", showSettings), ("set", changeSetting), ("reset", resetSettings)]) =
        giveSetting c.output key text := by
    funext s
    rw [Entry.run, runGroup_of_takes hinner hname rfl]
    exact changeSetting_of_takes hlast hothers c s
  rw [program_of_calls hcalls rfl]
  simp only [hrun]

end Raml.Command
