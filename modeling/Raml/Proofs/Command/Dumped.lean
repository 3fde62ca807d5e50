import Raml.Proofs.Command.Started
import Raml.Proofs.Document.Limits
import Raml.Proofs.Json.Strict
import Raml.Proofs.Store.Disk
import Raml.Proofs.Text.Utf8

/-!
# The resolved definition as JSON

A definition is brought into the form for other programs before it is written, and that form has a
text of JSON for whatever a document may hold, with one exception: the limits that parameters set
for numbers are written as they were read, and those of them that are no numbers make a text that
strict readers refuse. So what is emitted is a text of JSON exactly if all limits are finite
(`run_dump_iff`), whether it goes to the results or to a file.
-/

namespace Raml.Command

open Json (AreBlanks IsJsonText)

variable {args : List String} {l : Line} {source file : String} {s t : Session} {o : Output}
  {a : Api} {v : Value}

/-- Whether a line calls for the definition at `source` to be written as JSON. The empty text names
no file. -/
def CallsDump (args : List String) (l : Line) (source file : String) : Prop :=
  ∃ rest last, Calls args l "resolve" rest ∧ Takes resolveSwitches true rest last ∧
    last.others = [source] ∧ last.has "--yaml" = false ∧ (last.value? "--output").getD "" = file

/-- Whether a text was emitted on the way to another session: to a file, if one is named. -/
def Emitted (s t : Session) (file text : String) : Prop :=
  if file.isEmpty then t.results = s.results ++ text
  else t.world.disk.HasText (Path.ofString file) text

/-- Writes a definition as JSON. -/
def dumpTo (o : Output) (file : String) (a : Api) : Command Unit := do
  let v ← (ofExcept a.dump : Action Value)
  if file.isEmpty then o.respond v else writeResult o file v

/-- A line that calls for a definition that there is comes down to writing it. -/
theorem program_of_callsDump (hcalls : CallsDump args l source file)
    (ha : definition? s l source = some a) :
    ∃ o t, output? s l = some o ∧ o.file = none ∧ t.results = s.results ∧
      program args s = dumpTo o file a t := by
  obtain ⟨rest, last, hprogram, htakes, hothers, hyaml, hfile⟩ := hcalls
  obtain ⟨timeout, c, s₁, htimeout, hprepare, houtput, hresults₁, j, hparse⟩ := exists_start ha
  obtain ⟨s₂, hapi, hresults₂⟩ := exists_api hparse
  have hline : readArguments resolveSwitches 1 rest s₁ = .ok last s₁ :=
    readArguments_eq_ok.mpr ⟨htakes, by rw [hothers, List.length_singleton], rfl⟩
  refine ⟨c.output, s₂, houtput, file_of_prepare hprepare, hresults₂.trans hresults₁, ?_⟩
  rw [program_of_calls hprogram rfl, bind_of_ok htimeout, bind_of_ok hprepare]
  change resolve c rest s₁ = _
  unfold resolve dumpTo
  rw [bind_of_ok hline, hothers, List.headD_cons]
  refine (bind_of_ok hapi).trans ?_
  simp only [hyaml, hfile, Bool.false_eq_true, if_false]

/-- Writing a definition fails with a code. -/
theorem failsWithCode_dumpTo (o : Output) (file : String) (a : Api) :
    FailsWithCode (dumpTo o file a) := by
  refine failsWithCode_ofAction.bind fun v => ?_
  split
  · exact failsWithCode_ofAction
  · exact failsWithCode_ofAction.bind fun _ => failsWithCode_ofAction

/-! ## What is emitted -/

/-- A document is dumped as its portable value, or not at all. -/
theorem eq_of_dump (h : a.dump = .ok v) : v = a.toValue Value.portable := by
  unfold Api.dump at h
  dsimp only at h
  split at h
  · cases h
  · exact (Except.ok.inj (ite_error_eq_ok.mp h).2).symm

/-- A definition is written as a mapping. -/
theorem exists_map_of_dump (h : a.dump = .ok v) : ∃ es, v = .map es := by
  rw [eq_of_dump h]
  exact ⟨_, rfl⟩

/-- A text that was put at a path is found there. -/
theorem hasText_of_putText {p : Path} {text : String} (h : Action.putText p text s = .ok () t) :
    t.world.disk.HasText p text := by
  obtain ⟨-, d, hwrite, rfl⟩ := Action.change_eq_ok.mp h
  obtain ⟨names, hresolve, hfile, rfl⟩ := Disk.write_eq_ok.mp hwrite
  have hfind : (s.world.disk.put names (.file (Text.Utf8.encode text))).find p = .ok _ :=
    Disk.find_put_file_self hfile hresolve
  exact ⟨_, Disk.read_eq_ok.mpr hfind, Text.Utf8.decode_encode text⟩

/-- Anything but a text is put into a file as JSON, and a newline after it. -/
theorem exists_write_of_fileText {es : List (Value × Value)} {text : String}
    (h : Output.fileText (.map es) = .ok text) :
    ∃ body tail, Json.write .unicode (.map es) = .ok body ∧ text = body ++ tail ∧
      AreBlanks tail.toList := by
  obtain ⟨body, hbody, htext⟩ := bind_eq_ok.mp h
  obtain rfl := pure_eq_ok.mp htext
  split
  · exact ⟨body, "", hbody, (String.append_empty ..).symm, List.forall_mem_nil _⟩
  · exact ⟨body, "\n", hbody, rfl, List.forall_mem_singleton.mpr rfl⟩

/-- As JSON a value goes to the results with a newline after it. -/
theorem exists_write_of_respond (hfile : o.file = none) (hformat : o.format = .json)
    (h : o.respond v s = .ok () t) :
    ∃ body, Json.write .unicode v = .ok body ∧ t.results = s.results ++ (body ++ "\n") := by
  rw [Output.respond, hfile] at h
  simp only [Output.present, hformat] at h
  obtain ⟨body, s₁, hfirst, hwrite⟩ := of_run_bind h
  obtain ⟨hbody, rfl⟩ := run_ofExcept_eq_ok.mp hfirst
  cases hwrite
  exact ⟨body, hbody, rfl⟩

/-- A file has what was written to it; what is said about it afterwards goes elsewhere. -/
theorem exists_write_of_writeResult {es : List (Value × Value)}
    (h : writeResult o file (.map es) s = .ok () t) :
    ∃ body tail, Json.write .unicode (.map es) = .ok body ∧ AreBlanks tail.toList ∧
      t.world.disk.HasText (Path.ofString file) (body ++ tail) := by
  obtain ⟨_, s₁, hwrite, htell⟩ := of_run_bind h
  obtain ⟨text, s₂, hfirst, hput⟩ := of_run_bind (ofAction_eq_ok.mp hwrite)
  obtain ⟨htext, rfl⟩ := run_ofExcept_eq_ok.mp hfirst
  obtain ⟨body, tail, hbody, rfl, htail⟩ := exists_write_of_fileText htext
  refine ⟨body, tail, hbody, htail, ?_⟩
  rw [(Output.reaches_of_tell (ofAction_eq_ok.mp htell)).disk]
  exact hasText_of_putText hput

/-- What a definition is written as, with what follows it. -/
theorem exists_emitted (hfile : o.file = none) (hformat : file = "" → o.format = .json)
    (h : dumpTo o file a s = .ok () t) :
    ∃ body tail, Json.write .unicode (a.toValue Value.portable) = .ok body ∧
      AreBlanks tail.toList ∧ Emitted s t file (body ++ tail) := by
  obtain ⟨v, s₁, hfirst, hrest⟩ := of_run_bind h
  obtain ⟨hdump, rfl⟩ := run_ofExcept_eq_ok.mp (ofAction_eq_ok.mp hfirst)
  obtain ⟨es, rfl⟩ := exists_map_of_dump hdump
  rw [← eq_of_dump hdump]
  by_cases hempty : file.isEmpty
  · rw [if_pos hempty] at hrest
    obtain ⟨body, hbody, hresults⟩ := exists_write_of_respond hfile
      (hformat (String.isEmpty_iff.mp hempty)) (ofAction_eq_ok.mp hrest)
    exact ⟨body, "\n", hbody, List.forall_mem_singleton.mpr rfl, by rwa [Emitted, if_pos hempty]⟩
  · rw [if_neg hempty] at hrest
    obtain ⟨body, tail, hbody, htail, htext⟩ := exists_write_of_writeResult hrest
    exact ⟨body, tail, hbody, htail, by rwa [Emitted, if_neg hempty]⟩

/-- What a line that calls for a definition to be written as JSON, and ends well, has emitted. -/
theorem exists_emitted_of_run (hcalls : CallsDump args l source file)
    (ha : definition? s l source = some a)
    (hjson : file = "" → (output? s l).map Output.format = some .json)
    (hcode : (s.run args).1.code = 0) :
    ∃ body tail, Json.write .unicode (a.toValue Value.portable) = .ok body ∧
      AreBlanks tail.toList ∧ Emitted s (s.run args).2 file (body ++ tail) := by
  obtain ⟨o, s₁, houtput, hfile, hresults, hprogram⟩ := program_of_callsDump hcalls ha
  -- without a file the format decides, and with one it does not matter
  have hformat : file = "" → o.format = .json := by
    intro hempty
    have hmap := hjson hempty
    rw [houtput] at hmap
    exact Option.some.inj hmap
  rcases Session.run_cases args s with ⟨t, hrun, hdone⟩ | ⟨e, t, hrun, hfails, -⟩
  · rw [hprogram] at hrun
    obtain ⟨body, tail, hwrite, htail, hemitted⟩ := exists_emitted hfile hformat hrun
    refine ⟨body, tail, hwrite, htail, ?_⟩
    rw [hdone]
    unfold Emitted at hemitted ⊢
    rwa [hresults] at hemitted
  · -- every way to fail has a code
    rw [hprogram] at hrun
    exact absurd hcode (hfails (failsWithCode_dumpTo o file a s₁ t e hrun))

/-- A definition that is written as JSON makes a text of JSON if all its limits are finite, and only
then. -/
theorem isJsonText_iff {body tail : String}
    (hwrite : Json.write .unicode (a.toValue Value.portable) = .ok body)
    (htail : AreBlanks tail.toList) : IsJsonText (body ++ tail) ↔ a.HasFiniteLimits :=
  (Json.isJsonText_write_iff Json.Alphabet.escapesControls_unicode hwrite htail).trans
    a.isFinite_toValue

/-- **JSON output.** A line that calls for a definition to be written as JSON, and ends well, has
emitted a text of JSON exactly if all limits that parameters set for numbers are finite. -/
theorem run_dump_iff (hcalls : CallsDump args l source file) (ha : definition? s l source = some a)
    (hjson : file = "" → (output? s l).map Output.format = some .json)
    (hcode : (s.run args).1.code = 0) :
    ∃ text, Emitted s (s.run args).2 file text ∧ (IsJsonText text ↔ a.HasFiniteLimits) := by
  obtain ⟨body, tail, hwrite, htail, hemitted⟩ := exists_emitted_of_run hcalls ha hjson hcode
  exact ⟨body ++ tail, hemitted, isJsonText_iff hwrite htail⟩

/-- A session with a document that sets a limit for a number. -/
def limiting (limit : String) : Session :=
  holding ("#%RAML 1.0\ntitle: Shop\nbaseUriParameters:\n  size:\n    minimum: " ++ limit ++ "\n")

/-- The line that writes the definition to the results. -/
def dumpAsJson : List String := ["--json", "resolve", "api.raml"]

theorem callsDump_dumpAsJson :
    CallsDump dumpAsJson ⟨[("--json", "")], ["resolve", "api.raml"]⟩ "api.raml" "" :=
  ⟨["api.raml"], ⟨[], ["api.raml"]⟩, ⟨by decide, rfl, rfl, rfl⟩, ⟨by decide, rfl⟩, rfl, rfl, rfl⟩

/-- A document without libraries and resources has no limits but those of its own tables. -/
theorem hasFiniteLimits_of_flat (hlibraries : a.libraries = []) (hresources : a.resources = [])
    (hdeclared : a.declared.parameterTables.flatten = [])
    (hbase : ∀ e ∈ a.baseUriParameters, e.2.HasFiniteLimits) : a.HasFiniteLimits := by
  intro t ht e he
  cases ht with
  | baseUri => exact hbase e he
  | declared h =>
    have hmem := List.mem_flatten.mpr ⟨t, h, he⟩
    rw [hdeclared] at hmem
    cases hmem
  | library hl h => exact absurd (hlibraries ▸ hl) Library.not_within_nil
  | resource hr h => exact absurd (hresources ▸ hr) Resource.not_within_nil

/-- A limit of one is written as JSON. -/
theorem isJsonText_of_one :
    ((limiting "1").run dumpAsJson).1.code = 0 ∧
      IsJsonText ((limiting "1").run dumpAsJson).2.results := by
  have hcode : ((limiting "1").run dumpAsJson).1.code = 0 := by decide +kernel
  have hjson : (output? (limiting "1") ⟨[("--json", "")], ["resolve", "api.raml"]⟩).map
      Output.format = some .json := by decide +kernel
  obtain ⟨a, ha, hparts⟩ := Option.map_eq_some_iff.mp
    (by decide +kernel : (definition? (limiting "1") ⟨[("--json", "")], ["resolve", "api.raml"]⟩
      "api.raml").map (fun a => (a.libraries.isEmpty, a.resources.isEmpty,
        a.declared.parameterTables.flatten.isEmpty,
        decide (∀ e ∈ a.baseUriParameters, e.2.HasFiniteLimits))) = some (true, true, true, true))
  simp only [Prod.mk.injEq, List.isEmpty_iff, decide_eq_true_eq] at hparts
  obtain ⟨hlibraries, hresources, hdeclared, hbase⟩ := hparts
  obtain ⟨text, hemitted, hiff⟩ := run_dump_iff callsDump_dumpAsJson ha (fun _ => hjson) hcode
  have hresults : ((limiting "1").run dumpAsJson).2.results = "" ++ text := hemitted
  rw [hresults, String.empty_append]
  exact ⟨hcode, hiff.mpr (hasFiniteLimits_of_flat hlibraries hresources hdeclared hbase)⟩

/-- A limit that is no number is not. -/
theorem not_isJsonText_of_nan :
    ((limiting ".nan").run dumpAsJson).1.code = 0 ∧
      (definition? (limiting ".nan") ⟨[("--json", "")], ["resolve", "api.raml"]⟩
        "api.raml").isSome = true ∧
      ¬IsJsonText ((limiting ".nan").run dumpAsJson).2.results := by
  have hcode : ((limiting ".nan").run dumpAsJson).1.code = 0 := by decide +kernel
  have hjson : (output? (limiting ".nan") ⟨[("--json", "")], ["resolve", "api.raml"]⟩).map
      Output.format = some .json := by decide +kernel
  obtain ⟨a, ha, hbase⟩ := Option.map_eq_some_iff.mp
    (by decide +kernel : (definition? (limiting ".nan") ⟨[("--json", "")], ["resolve", "api.raml"]⟩
      "api.raml").map (fun a => decide (∀ e ∈ a.baseUriParameters, e.2.HasFiniteLimits)) =
        some false)
  obtain ⟨body, tail, hwrite, htail, hemitted⟩ :=
    exists_emitted_of_run callsDump_dumpAsJson ha (fun _ => hjson) hcode
  have hresults : ((limiting ".nan").run dumpAsJson).2.results = "" ++ (body ++ tail) := hemitted
  refine ⟨hcode, Option.isSome_iff_exists.mpr ⟨a, ha⟩, fun htext => ?_⟩
  rw [hresults, String.empty_append] at htext
  exact of_decide_eq_false hbase ((isJsonText_iff hwrite htail).mp htext _ .baseUri)

end Raml.Command
