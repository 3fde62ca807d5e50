import Raml.Proofs.Settings.Effective
import Raml.Proofs.Settings.Layers

/-!
# Settings that are reported as bad

Whoever asks for the settings in effect gets them, or is told that a file, a variable or all of it
together is no good: the error is one of the settings (`Reported`). There are three ways around
that, and `Escapes` lists them: a file that cannot be read for a reason that nobody thought of
(`Defies`), in the folder of the settings or in that of the project, and a setting given from
outside of the files for a group that the file of the project has replaced by something else.

Each step of looking up the settings either goes on or reports, so `reported_bind` takes them apart
one after another. What the layers come to is known from the entry of the project's file alone
(`hasGroup_overlayEntries`), as the settings of the user have all groups.
-/

namespace Raml

/-! ## Steps that succeed or report bad settings -/

/-- Whether a step succeeds or fails with an error of the settings. -/
def Reported {α : Type} (x : Except Error α) : Prop :=
  (∃ a, x = .ok a) ∨ ∃ words, x = .error (.config words)

/-- Whether an action succeeds or fails with an error of the settings. -/
def Action.Reports {α : Type} (x : Action α) (s : Session) : Prop :=
  (∃ a t, x s = .ok a t) ∨ ∃ words t, x s = .error (.config words) t

section Steps

variable {α β : Type} {s t : Session} {x : Action α} {f : α → Action β}

theorem reported_ok (a : α) : Reported (.ok a) := .inl ⟨a, rfl⟩

theorem reported_error_iff {e : Error} :
    Reported (.error e : Except Error α) ↔ ∃ words, e = .config words := by
  constructor
  · rintro (⟨a, ha⟩ | ⟨words, hwords⟩)
    · cases ha
    · exact ⟨words, Except.error.inj hwords⟩
  · rintro ⟨words, rfl⟩
    exact .inr ⟨words, rfl⟩

namespace Action

theorem reports_of_ok {a : α} (h : x s = .ok a t) : x.Reports s := .inl ⟨a, t, h⟩

/-- A step that fails reports exactly if what it fails with is an error of the configuration. -/
theorem reports_iff_of_error {e : Error} (h : x s = .error e t) :
    x.Reports s ↔ ∃ words, e = .config words := by
  unfold Reports
  rw [h]
  constructor
  · rintro (⟨a, u, ha⟩ | ⟨words, u, hwords⟩)
    · cases ha
    · cases hwords
      exact ⟨words, rfl⟩
  · rintro ⟨words, rfl⟩
    exact .inr ⟨words, t, rfl⟩

/-- After a step that goes on it is the next one that may report. -/
theorem reports_bind_of_ok {a : α} (h : x s = .ok a t) :
    (x >>= f).Reports s ↔ (f a).Reports t := by
  unfold Reports
  rw [bind_of_ok h]

/-- What a failed step says is what is said in the end. -/
theorem reports_bind_of_error {e : Error} (h : x s = .error e t) :
    (x >>= f).Reports s ↔ x.Reports s := by
  rw [reports_iff_of_error h, reports_iff_of_error (bind_of_error h)]

theorem reports_ofExcept {r : Except Error α} :
    (ofExcept r : Action α).Reports s ↔ Reported r := by
  cases r with
  | ok a => exact iff_of_true (reports_of_ok rfl) (reported_ok a)
  | error e => exact (reports_iff_of_error (s := s) (t := s) rfl).trans reported_error_iff.symm

end Action

end Steps

namespace Settings

variable {s t : Session} {p : Path} {d : Disk} {o : Overrides}

/-! ## Files -/

/-- Whether reading a file of settings fails, and not for what the settings are: its bytes are no
text, or an integer in it has more figures than are read. -/
inductive Defies (d : Disk) (p : Path) : Prop where
  | noText {bytes : List UInt8} {fault : Text.Utf8.Fault} (bytesAt : d.read p = .ok bytes)
    (decode : Text.Utf8.decode bytes = .error fault)
  | tooLong {text : String} (textAt : d.HasText p text) (read : Json.read text = .error .tooLong)

/-- What defies reading is a file. -/
theorem isFile_of_defies (h : Defies d p) : d.isFile p = true := by
  cases h with
  | noText hbytes => exact Disk.isFile_iff.mpr ⟨_, Disk.read_eq_ok.mp hbytes⟩
  | tooLong htext =>
    obtain ⟨bytes, hbytes, _⟩ := htext
    exact Disk.isFile_iff.mpr ⟨bytes, Disk.read_eq_ok.mp hbytes⟩

/-- A file holds one text. -/
theorem hasText_unique {text text' : String} (h : d.HasText p text) (h' : d.HasText p text') :
    text = text' := by
  obtain ⟨bytes, hread, hdecode⟩ := h
  obtain ⟨bytes', hread', hdecode'⟩ := h'
  obtain rfl : bytes = bytes' := Except.ok.inj (hread.symm.trans hread')
  exact Except.ok.inj (hdecode.symm.trans hdecode')

/-- A file holds one object. -/
theorem hasObject_unique {es es' : List (Value × Value)} (h : d.HasObject p es)
    (h' : d.HasObject p es') : es = es' := by
  obtain ⟨text, htext, hread⟩ := h
  obtain ⟨text', htext', hread'⟩ := h'
  obtain rfl : text = text' := hasText_unique htext htext'
  cases hread.symm.trans hread'
  rfl

/-- A file that can be decoded and whose numbers are not too long does not defy reading. -/
theorem not_defies_of_read {text : String} (htext : d.HasText p text)
    (h : Json.read text ≠ .error .tooLong) : ¬Defies d p := by
  intro hdefies
  cases hdefies with
  | noText hbytes hfault =>
    obtain ⟨bytes, hread, hdecode⟩ := htext
    obtain rfl := Except.ok.inj (hread.symm.trans hbytes)
    cases hdecode.symm.trans hfault
  | tooLong htext' hread =>
    rw [hasText_unique htext htext'] at h
    exact h hread

/-- Reading an object reports what is wrong unless the file defies it. -/
theorem reports_readObject {label : String} (hplain : p.IsPlain)
    (hfile : s.world.disk.isFile p = true) :
    (readObject label p).Reports s ↔ ¬Defies s.world.disk p := by
  obtain ⟨bytes, hbytes⟩ := Disk.isFile_iff.mp hfile
  have hread : s.world.disk.read p = .ok bytes := Disk.read_eq_ok.mpr hbytes
  unfold readObject
  -- bytes that are no text and a number that is too long are all that gets by
  cases hdecode : Text.Utf8.decode bytes with
  | error fault =>
    have hlook : Action.look p (fun d => d.read p) s = .ok bytes (s.noting p) :=
      Action.look_eq_ok.mpr ⟨hplain, hread, rfl⟩
    have htext : Action.textAt p s = .error .encoding (s.noting p) := by
      refine (bind_of_ok hlook).trans ?_
      rw [hdecode]
      rfl
    rw [Action.reports_bind_of_error htext, Action.reports_iff_of_error htext]
    exact iff_of_false nofun (not_not_intro (.noText hread hdecode))
  | ok text =>
    have hhas : s.world.disk.HasText p text := ⟨bytes, hread, hdecode⟩
    rw [Action.reports_bind_of_ok (Action.textAt_eq_ok.mpr ⟨hplain, hhas, rfl⟩)]
    cases hjson : Json.read text with
    | ok v =>
      refine iff_of_true ?_ (not_defies_of_read hhas (by rw [hjson]; nofun))
      cases v with
      | map es => exact Action.reports_of_ok rfl
      | _ => exact .inr ⟨_, _, rfl⟩
    | error fault =>
      cases fault with
      | malformed =>
        exact iff_of_true (.inr ⟨_, _, rfl⟩) (not_defies_of_read hhas (by rw [hjson]; nofun))
      | tooLong =>
        refine iff_of_false ?_ (not_not_intro (.tooLong hhas hjson))
        exact fun h => nomatch (Action.reports_iff_of_error rfl).mp h

theorem reported_ofValue (error : String → Error) (herror : ∀ words, ∃ w, error words = .config w)
    (v : Value) : Reported (ofValue error v) := by
  unfold ofValue
  split
  · exact reported_ok _
  · exact reported_error_iff.mpr (herror _)

/-- A file is read if it is there, and what comes after that reports. -/
theorem reports_readFile {α : Type} {label : String} {f : List (Value × Value) → Action α}
    {x : Action α} (hplain : p.IsPlain) (hf : ∀ es s, (f es).Reports s) (hx : ∀ s, x.Reports s) :
    (Action.isFile p >>= fun b => if b then readObject label p >>= f else x).Reports s ↔
      ¬Defies s.world.disk p := by
  have hisFile : Action.isFile p s = .ok (s.world.disk.isFile p) (s.noting p) :=
    Action.isFile_eq_ok.mpr ⟨hplain, rfl, rfl⟩
  rw [Action.reports_bind_of_ok hisFile]
  cases hb : s.world.disk.isFile p with
  | false =>
    refine iff_of_true (hx _) fun hdefies => ?_
    exact Bool.false_ne_true (hb.symm.trans (isFile_of_defies hdefies))
  | true =>
    have hobject : (readObject label p).Reports (s.noting p) ↔ ¬Defies s.world.disk p :=
      reports_readObject hplain hb
    refine Iff.trans ?_ hobject
    cases hread : readObject label p (s.noting p) with
    | error e t => exact Action.reports_bind_of_error hread
    | ok es t =>
      refine (Action.reports_bind_of_ok hread).trans ?_
      exact iff_of_true (hf es t) (Action.reports_of_ok hread)

/-- Loading settings reports what is wrong unless their file defies it. -/
theorem reports_load (hfinds : Finds s p d) : load.Reports s ↔ ¬Defies d (fileIn p) := by
  have hfile : userFile s = .ok (fileIn p) (s.changing p d) := userFile_eq_ok.mpr
    ⟨p, folder_eq_ok.mpr ⟨hfinds.folder, hfinds.isPlain, d, hfinds.made, rfl⟩, rfl⟩
  unfold load
  rw [Action.reports_bind_of_ok hfile]
  refine reports_readFile hfinds.fileIsPlain (fun es t => ?_) fun t => Action.reports_of_ok rfl
  rw [Action.reports_ofExcept]
  exact reported_ofValue _ (fun words => ⟨_, rfl⟩) _

theorem reports_loadProject (hplain : (projectIn s.world.disk).IsPlain) :
    loadProject.Reports s ↔ ¬Defies s.world.disk (projectIn s.world.disk) := by
  have hrun : loadProject s = (Action.isFile (projectIn s.world.disk) >>= fun b =>
      if b then readObject "project config" (projectIn s.world.disk) >>= fun es => pure (some es)
      else pure none : Action _) s := rfl
  unfold Action.Reports
  rw [hrun]
  exact reports_readFile hplain (fun _ _ => Action.reports_of_ok rfl)
    fun _ => Action.reports_of_ok rfl

/-! ## Groups -/

/-- Whether mappings have a group of settings under a name. -/
def HasGroup (es : List (Value × Value)) (group : String) : Prop :=
  ∃ settings, Value.get? group es = some (.map settings)

theorem hasGroup_iff_of_get? {es : List (Value × Value)} {group : String} {v : Value}
    (h : Value.get? group es = some v) : HasGroup es group ↔ ∃ settings, v = .map settings := by
  unfold HasGroup
  rw [h]
  simp only [Option.some.injEq]

/-- Settings always have both of their groups. -/
theorem hasGroup_entries (user : Settings) {group : String}
    (h : group = "fetch" ∨ group = "output") : HasGroup user.entries group := by
  have hfetch : Value.get? "fetch" user.entries = some user.fetch.toValue := by
    rw [entries, Value.get?_cons_str, if_pos rfl]
  have houtput : Value.get? "output" user.entries = some user.output.toValue := by
    rw [entries, Value.get?_cons_str, if_neg (by decide), Value.get?_cons_str, if_pos rfl]
  rcases h with rfl | rfl
  · exact (hasGroup_iff_of_get? hfetch).mpr ⟨_, rfl⟩
  · exact (hasGroup_iff_of_get? houtput).mpr ⟨_, rfl⟩

/-- What stands under a name after other entries, each under a name of its own, were laid over. -/
theorem get?_overlayEntries {given : Table Value} (hdistinct : given.Distinct) (name : String)
    (base : List (Value × Value)) :
    Value.get? name (overlayEntries base (given.map fun e => (.str e.1, e.2))) =
      match given.get? name with
      | none => Value.get? name base
      | some v => some (((Value.get? name base).map (overlay · v)).getD v) := by
  induction given generalizing base with
  | nil =>
    rw [List.map_nil, overlayEntries]
    rfl
  | cons e given ih =>
    -- no key is laid twice, so each group is looked at when its own turn comes
    obtain ⟨n, v⟩ := e
    obtain ⟨hnew, hrest⟩ := List.nodup_cons.mp hdistinct
    rw [List.map_cons, overlayEntries, ih hrest, Value.get?_insert, Table.get?]
    by_cases hn : name = n
    · subst hn
      have hnone : Table.get? name given = none := by
        by_contra hsome
        have hhas : Table.has name given = true := Option.isSome_iff_ne_none.mpr hsome
        exact hnew (Table.has_iff_mem_names.mp hhas)
      rw [hnone, if_pos rfl, if_pos rfl, Value.get?]
      cases Value.find? (.str name) base <;> rfl
    · rw [if_neg hn, if_neg (Ne.symm hn)]

/-- A group stands after laying if nothing but a group was laid over it. -/
theorem hasGroup_overlayEntries {given : Table Value} (hdistinct : given.Distinct)
    {base : List (Value × Value)} {group : String} (h : HasGroup base group) :
    HasGroup (overlayEntries base (given.map fun e => (.str e.1, e.2))) group ↔
      ∀ v, given.get? group = some v → ∃ settings, v = .map settings := by
  obtain ⟨settings, hsettings⟩ := h
  have hget := get?_overlayEntries hdistinct group base
  rw [hsettings] at hget
  cases hgiven : given.get? group with
  | none =>
    rw [hgiven] at hget
    exact iff_of_true ⟨settings, hget⟩ nofun
  | some v =>
    rw [hgiven] at hget
    rw [hasGroup_iff_of_get? hget]
    simp only [Option.some.injEq, forall_eq', Option.map_some, Option.getD_some]
    cases v with
    | map es => exact iff_of_true ⟨_, rfl⟩ ⟨es, rfl⟩
    | _ => exact Iff.rfl

/-! ## Layers -/

theorem assign_of_hasGroup {group : String} {es : List (Value × Value)} (h : HasGroup es group)
    (name : String) (v : Value) :
    ∃ r, assign group name v es = .ok r ∧ ∀ g, HasGroup r g ↔ HasGroup es g := by
  obtain ⟨settings, hsettings⟩ := h
  refine ⟨_, by rw [assign, hsettings], fun g => ?_⟩
  unfold HasGroup
  rw [Value.get?_insert]
  by_cases hg : g = group
  · rw [if_pos hg, hg, hsettings]
    exact iff_of_true ⟨_, rfl⟩ ⟨_, rfl⟩
  · rw [if_neg hg]

/-- Nothing can be assigned in a group that is not there. -/
theorem assign_of_not_hasGroup {group name : String} {v : Value} {es : List (Value × Value)}
    (h : ¬HasGroup es group) : assign group name v es = .error .noGroup := by
  unfold assign
  split
  · rename_i settings hsettings
    exact absurd ⟨settings, hsettings⟩ h
  · rfl

/-- A setting from outside of the files needs its group, and leaves all groups as they are. -/
theorem reported_assign?_bind {α : Type} {group name : String} {v : Option Value}
    {es es' : List (Value × Value)} {f : List (Value × Value) → Except Error α} {P : Prop}
    (hes : ∀ g, HasGroup es g ↔ HasGroup es' g)
    (hf : ∀ r, (∀ g, HasGroup r g ↔ HasGroup es' g) → (Reported (f r) ↔ P)) :
    Reported (assign? group name v es >>= f) ↔ (v ≠ none → HasGroup es' group) ∧ P := by
  -- a value that is not given asks for no group, and one that is given keeps all groups
  cases v with
  | none =>
    have hassign : assign? group name none es = .ok es := rfl
    rw [bind_of_eq_ok hassign, hf es hes]
    exact (and_iff_right fun h => absurd rfl h).symm
  | some v =>
    rw [← hes group]
    by_cases hgroup : HasGroup es group
    · obtain ⟨r, hr, hsame⟩ := assign_of_hasGroup hgroup name v
      have hassign : assign? group name (some v) es = .ok r := hr
      rw [bind_of_eq_ok hassign, hf r fun g => (hsame g).trans (hes g)]
      exact (and_iff_right fun _ => hgroup).symm
    · have hassign : assign? group name (some v) es = .error .noGroup :=
        assign_of_not_hasGroup hgroup
      rw [hassign]
      refine iff_of_false (fun h => ?_) fun h => hgroup (h.1 nofun)
      exact nomatch reported_error_iff.mp h

/-- Whether a setting of a group is given from outside of the files, by a variable or by the
command. -/
inductive Gives (environment : Table String) (o : Overrides) : String → Prop where
  | timeout (h : given? timeoutVariable environment ≠ none ∨ o.timeout ≠ none) :
    Gives environment o "fetch"
  | format (h : given? formatVariable environment ≠ none ∨ o.format ≠ none) :
    Gives environment o "output"

/-- Whether the variable for the time is not there, or holds a number. -/
def GivesNumber (environment : Table String) : Prop :=
  ∀ text, given? timeoutVariable environment = some text → ∃ x, Numeral.floating? text = some x

/-- What the files come to. -/
def laid (user : Settings) (project : Option (List (Value × Value))) : List (Value × Value) :=
  (project.map (overlayEntries user.entries)).getD user.entries

/-- What is given from outside of the files is laid over what the files come to. -/
def withOutside (environment : Table String) (o : Overrides) (timeout : Option Value)
    (es : List (Value × Value)) : Except Error Settings := do
  let es ← assign? "fetch" "timeout" timeout es
  let es ← assign? "output" "format" ((given? formatVariable environment).map .str) es
  let es ← assign? "fetch" "timeout" o.timeout es
  let es ← assign? "output" "format" (o.format.map .str) es
  ofValue (fun words => .config ("Invalid configuration: " ++ words)) (.map es)

/-- Merging reads the timeout of the environment first and then lays what comes from outside over
the rest. -/
theorem merge_eq {user : Settings} {project : Option (List (Value × Value))}
    {environment : Table String} : merge user project environment o =
      (given? timeoutVariable environment).mapM timeoutOf >>= fun timeout =>
        withOutside environment o timeout (laid user project) := by
  unfold merge withVariables Overrides.apply withOutside laid
  cases project <;> simp only [bind_assoc] <;> rfl

/-- What comes from outside is assigned without a word if it finds its groups. -/
theorem reported_withOutside {environment : Table String} {timeout : Option Value}
    {es : List (Value × Value)}
    (htimeout : timeout ≠ none ↔ given? timeoutVariable environment ≠ none) :
    Reported (withOutside environment o timeout es) ↔
      ∀ group, Gives environment o group → HasGroup es group := by
  have hsteps : Reported (withOutside environment o timeout es) ↔
      (timeout ≠ none → HasGroup es "fetch") ∧
      ((given? formatVariable environment).map Value.str ≠ none → HasGroup es "output") ∧
      (o.timeout ≠ none → HasGroup es "fetch") ∧
      (o.format.map Value.str ≠ none → HasGroup es "output") ∧ True := by
    -- the values are put in one after the other, and each needs its group
    refine reported_assign?_bind (fun _ => Iff.rfl) fun r hr => ?_
    refine reported_assign?_bind hr fun r hr => ?_
    refine reported_assign?_bind hr fun r hr => ?_
    refine reported_assign?_bind hr fun r _ => ?_
    exact iff_true_intro (reported_ofValue _ (fun words => ⟨_, rfl⟩) _)
  rw [hsteps, htimeout]
  simp only [ne_eq, Option.map_eq_none_iff]
  constructor
  · rintro ⟨htimeout, hformat, htimeout', hformat', -⟩ group hgives
    cases hgives with
    | timeout h => exact h.elim htimeout htimeout'
    | format h => exact h.elim hformat hformat'
  · intro h
    exact ⟨fun hgiven => h _ (.timeout (.inl hgiven)), fun hgiven => h _ (.format (.inl hgiven)),
      fun hgiven => h _ (.timeout (.inr hgiven)), fun hgiven => h _ (.format (.inr hgiven)),
      trivial⟩

/-- Merging reports what is wrong if every group is there into which something is given from
outside. -/
theorem reported_merge {user : Settings} {project : Option (List (Value × Value))}
    {environment : Table String} : Reported (merge user project environment o) ↔
      (GivesNumber environment → ∀ group, Gives environment o group →
        HasGroup (laid user project) group) := by
  rw [merge_eq]
  cases hgiven : given? timeoutVariable environment with
  | none =>
    have hnumber : GivesNumber environment := by
      intro text htext
      rw [hgiven] at htext
      cases htext
    have hstep : Option.mapM timeoutOf (none : Option String) = .ok none := rfl
    rw [bind_of_eq_ok hstep, reported_withOutside (by simp [hgiven])]
    exact ⟨fun h _ => h, fun h => h hnumber⟩
  | some text =>
    cases hnumeral : Numeral.floating? text with
    | none =>
      -- then the variable is reported before any group is asked for
      have hnumber : ¬GivesNumber environment := by
        intro hnumber
        obtain ⟨x, hx⟩ := hnumber text hgiven
        cases hnumeral.symm.trans hx
      have hstep : Option.mapM timeoutOf (some text) =
          .error (.config (timeoutVariable ++ " must be a number of seconds, got: " ++ text)) := by
        simp [Option.mapM, timeoutOf, hnumeral]
      rw [hstep]
      exact iff_of_true (reported_error_iff.mpr ⟨_, rfl⟩) fun h => absurd h hnumber
    | some x =>
      have hnumber : GivesNumber environment := by
        intro text' htext'
        obtain rfl := Option.some.inj (hgiven.symm.trans htext')
        exact ⟨x, hnumeral⟩
      have hstep : Option.mapM timeoutOf (some text) = .ok (some (.float x.toFloat)) := by
        simp [Option.mapM, timeoutOf, hnumeral]
      rw [bind_of_eq_ok hstep, reported_withOutside (by simp [hgiven])]
      exact ⟨fun h _ => h, fun h => h hnumber⟩

/-! ## All of it -/

/-- How looking up the settings in effect fails with no error of the settings. -/
inductive Escapes (s : Session) (o : Overrides) (p : Path) (d : Disk) : Prop where
  | user (h : Defies d (fileIn p))
  | project {user : Settings} (holds : Holds d (fileIn p) user) (h : Defies d (projectIn d))
  | group {user : Settings} {given : List (Value × Value)} {group : String} {v : Value}
    (holds : Holds d (fileIn p) user) (project : HoldsProject d (some given))
    (number : GivesNumber s.environment) (gives : Gives s.environment o group)
    (replaced : Value.get? group given = some v) (noGroup : ∀ settings, v ≠ .map settings)

theorem Gives.group_eq {environment : Table String} {group : String}
    (h : Gives environment o group) : group = "fetch" ∨ group = "output" := by
  cases h with
  | timeout => exact .inl rfl
  | format => exact .inr rfl

theorem get?_map_str {α : Type} (name : String) (t : Table α) :
    Value.get? name (t.map fun e => (Value.str e.1, e.2)) = t.get? name := by
  induction t with
  | nil => rfl
  | cons e t ih =>
    obtain ⟨n, a⟩ := e
    rw [List.map_cons, Value.get?_cons_str, Table.get?, ih]
    by_cases hn : name = n
    · rw [if_pos hn, if_pos hn.symm]
    · rw [if_neg hn, if_neg (Ne.symm hn)]

/-- Which groups the files leave is known from what the file of the project has under their
names. -/
theorem hasGroup_laid {user : Settings} {project : Option (List (Value × Value))} {group : String}
    (hgroup : group = "fetch" ∨ group = "output") (hproject : HoldsProject d project) :
    HasGroup (laid user project) group ↔ ∀ given v, project = some given →
      Value.get? group given = some v → ∃ settings, v = .map settings := by
  have huser : HasGroup user.entries group := hasGroup_entries user hgroup
  -- the user's settings have every group, so only the project can take one away
  cases hproject with
  | none _ heq =>
    subst heq
    exact iff_of_true huser nofun
  | @file es _ hobject heq =>
    subst heq
    obtain ⟨text, _, hread⟩ := hobject
    obtain ⟨t, hdistinct, rfl⟩ := Json.exists_of_read_map hread
    rw [laid, Option.map_some, Option.getD_some, hasGroup_overlayEntries hdistinct huser]
    constructor
    · intro h given v hgiven hv
      obtain rfl := Option.some.inj hgiven
      rw [get?_map_str] at hv
      exact h v hv
    · intro h v hv
      exact h _ v rfl ((get?_map_str group t).trans hv)

/-- A file holds one thing. -/
theorem holdsProject_unique {project project' : Option (List (Value × Value))}
    (h : HoldsProject d project) (h' : HoldsProject d project') : project = project' := by
  cases h with
  | none hfile heq =>
    cases h' with
    | none _ heq' => rw [heq, heq']
    | file hfile' => cases hfile.symm.trans hfile'
  | file hfile hobject heq =>
    cases h' with
    | none hfile' => cases hfile'.symm.trans hfile
    | file _ hobject' heq' => rw [heq, heq', hasObject_unique hobject hobject']

/-- Once both files have been read, only a group that was replaced can be in the way. -/
theorem reported_merge_iff {user : Settings} {project : Option (List (Value × Value))}
    (huser : ¬Defies d (fileIn p)) (hproject : ¬Defies d (projectIn d))
    (hholds : Holds d (fileIn p) user) (hholdsProject : HoldsProject d project) :
    Reported (merge user project s.environment o) ↔ ¬Escapes s o p d := by
  rw [reported_merge]
  -- what escapes is one of three things, and two of them are excluded by the hypotheses
  constructor
  · intro h hescapes
    cases hescapes with
    | user h => exact huser h
    | project _ h => exact hproject h
    | @group _ given group v _ hgiven hnumber hgives hreplaced hno =>
      have hsame : project = some given := holdsProject_unique hholdsProject hgiven
      obtain ⟨settings, hv⟩ := (hasGroup_laid hgives.group_eq hholdsProject).mp
        (h hnumber group hgives) given v hsame hreplaced
      exact hno settings hv
  · intro hnot hnumber group hgives
    refine (hasGroup_laid hgives.group_eq hholdsProject).mpr fun given v hgiven hreplaced => ?_
    by_contra hno
    rw [hgiven] at hholdsProject
    exact hnot (.group hholds hholdsProject hnumber hgives hreplaced
      fun settings hv => hno ⟨settings, hv⟩)

/-- Where the settings of the user cannot be loaded, their file is the only way to escape. -/
theorem escapes_iff_of_load_error {e : Error} (hfinds : Finds s p d) (hload : load s = .error e t) :
    Escapes s o p d ↔ Defies d (fileIn p) := by
  -- what the user holds would have been loaded
  have hnot : ∀ {user}, ¬Holds d (fileIn p) user := by
    intro user hholds
    obtain ⟨t', hload', _⟩ := exists_load hfinds hholds
    cases hload.symm.trans hload'
  constructor
  · intro hescapes
    cases hescapes with
    | user h => exact h
    | project hholds => exact absurd hholds hnot
    | group hholds => exact absurd hholds hnot
  · exact .user

/-- Where those of the project cannot be loaded either, it is their file. -/
theorem escapes_iff_of_loadProject_error {e : Error} {user : Settings} {t' : Session}
    (huser : ¬Defies d (fileIn p)) (hholds : Holds d (fileIn p) user) (hdisk : t.world.disk = d)
    (hplain : (projectIn d).IsPlain) (hproject : loadProject t = .error e t') :
    Escapes s o p d ↔ Defies d (projectIn d) := by
  subst hdisk
  constructor
  · intro hescapes
    cases hescapes with
    | user h => exact absurd h huser
    | project _ h => exact h
    | group _ hholdsProject =>
      obtain ⟨t'', ht'', _⟩ := exists_loadProject hplain hholdsProject
      cases hproject.symm.trans ht''
  · exact .project hholds

/-- **Bad settings are reported as such, unless they escape.** Let the folder of the settings be
found or made. Then looking up the settings in effect gives them or fails with an error of the
settings, in every case but those listed. -/
theorem effective_reports_iff (o : Overrides) (s : Session) (p : Path) (d : Disk)
    (hfinds : Finds s p d) (hplain : (projectIn d).IsPlain) :
    ((∃ c t, effective o s = .ok c t) ∨ ∃ words t, effective o s = .error (.config words) t) ↔
      ¬Escapes s o p d := by
  change (effective o).Reports s ↔ _
  unfold effective
  cases hload : load s with
  | error e t =>
    rw [Action.reports_bind_of_error hload, reports_load hfinds,
      escapes_iff_of_load_error hfinds hload]
  | ok user t =>
    have huser : ¬Defies d (fileIn p) := (reports_load hfinds).mp (Action.reports_of_ok hload)
    obtain ⟨p', d', hfinds', hholds, hreaches⟩ := of_load hload
    obtain rfl : p = p' := Except.ok.inj (hfinds.folder.symm.trans hfinds'.folder)
    obtain rfl : d = d' := Except.ok.inj (hfinds.made.symm.trans hfinds'.made)
    have hdefies : loadProject.Reports t ↔ ¬Defies d (projectIn d) := by
      rw [← hreaches.disk] at hplain ⊢
      exact reports_loadProject hplain
    rw [Action.reports_bind_of_ok hload]
    cases hproject : loadProject t with
    | error e t' =>
      rw [Action.reports_bind_of_error hproject, hdefies,
        escapes_iff_of_loadProject_error huser hholds hreaches.disk hplain hproject]
    | ok project t' =>
      -- both files are fine, and the rest is the merge
      have hnot : ¬Defies d (projectIn d) := hdefies.mp (Action.reports_of_ok hproject)
      obtain ⟨_, hholdsProject, hstay⟩ := of_loadProject hproject
      rw [hreaches.disk] at hholdsProject
      have henvironment : t'.environment = s.environment := (hreaches.stay hstay).environment
      have hrun : (do ofExcept (merge user project (← get).environment o) : Action Settings) t' =
          (ofExcept (merge user project t'.environment o) : Action Settings) t' := rfl
      have hreports : (do ofExcept (merge user project (← get).environment o) :
          Action Settings).Reports t' ↔ Reported (merge user project s.environment o) := by
        rw [← henvironment, ← Action.reports_ofExcept (s := t')]
        unfold Action.Reports
        rw [hrun]
      rw [Action.reports_bind_of_ok hproject, hreports]
      exact reported_merge_iff huser hnot hholds hholdsProject

/-- Settings are found in a folder that the surroundings name, if it is there. -/
theorem finds_of_shared
    (henvironment : Table.get? "XDG_CONFIG_HOME" s.environment = some "xdg")
    (hshares : s.sharesFolder = true)
    (hfolder : s.world.disk.isFolder ⟨"", ["xdg", "ramlkit"]⟩ = true) :
    Finds s ⟨"", ["xdg", "ramlkit"]⟩ s.world.disk where
  folder := by
    have hshared : sharedFolder s.environment = .ok (Path.ofString "xdg") := by
      rw [sharedFolder, henvironment]
      exact if_neg (by decide)
    rw [folderFor, hshares, if_pos rfl, hshared]
    decide
  isPlain := by unfold Path.IsPlain; decide
  fileIsPlain := by unfold Path.IsPlain; decide
  made := Disk.makeFolders_of_isFolder hfolder

/-- A session in a folder whose file has a number in place of the settings for fetching, and a
variable that gives the time. -/
def replacing (timeout : String) : Session :=
  .start ⟨⟨["work"], [("work", .folder), ("work/xdg", .folder), ("work/xdg/ramlkit", .folder),
      ("work/ramlkit.json", .file (Text.Utf8.encode "\x7b\"fetch\": 5\x7d"))]⟩, []⟩
    [("XDG_CONFIG_HOME", "xdg"), ("HOME", "/work"), ("RAMLKIT_TIMEOUT", timeout)]

theorem finds_replacing (timeout : String) :
    Finds (replacing timeout) ⟨"", ["xdg", "ramlkit"]⟩ (replacing timeout).world.disk :=
  finds_of_shared rfl rfl (by rfl)

theorem projectIn_replacing_isPlain (timeout : String) :
    (projectIn (replacing timeout).world.disk).IsPlain := by
  change (Path.mk "/" ["work", "ramlkit.json"]).IsPlain
  unfold Path.IsPlain
  decide

/-- The entry of an object that is an integer. -/
def integerAt (name : String) : Except Json.Fault Value → Option Int
  | .ok (.map es) =>
    match Value.get? name es with
    | some (.int n) => some n
    | _ => none
  | _ => none

theorem exists_of_integerAt {name : String} {r : Except Json.Fault Value} {n : Int}
    (h : integerAt name r = some n) :
    ∃ es, r = .ok (.map es) ∧ Value.get? name es = some (.int n) := by
  unfold integerAt at h
  split at h
  · rename_i es
    split at h
    · rename_i m hm
      rw [Option.some.inj h] at hm
      exact ⟨es, rfl, hm⟩
    · cases h
  · cases h

theorem replacing_escapes : Escapes (replacing "10") ⟨none, none⟩ ⟨"", ["xdg", "ramlkit"]⟩
    (replacing "10").world.disk := by
  obtain ⟨es, hread, hfetch⟩ : ∃ es, Json.read "\x7b\"fetch\": 5\x7d" = .ok (.map es) ∧
      Value.get? "fetch" es = some (.int 5) := exists_of_integerAt (by decide +kernel)
  have hobject : (replacing "10").world.disk.HasObject (projectIn (replacing "10").world.disk) es :=
    ⟨_, ⟨_, by rfl, Text.Utf8.decode_encode _⟩, hread⟩
  have hgiven : given? timeoutVariable (replacing "10").environment = some "10" := by decide
  refine .group (.usual rfl rfl) (.file rfl hobject rfl) ?_ (.timeout (.inl ?_)) hfetch ?_
  · intro text htext
    obtain rfl := Option.some.inj (hgiven.symm.trans htext)
    exact Option.isSome_iff_exists.mp (by decide +kernel)
  · rw [hgiven]
    nofun
  · intro settings hsettings
    cases hsettings

/-- The number in the file is reported as long as no time is given, and a time that is no number is
reported too; but a time that is a number escapes. -/
theorem replacing_reports_iff :
    (∀ timeout, Finds (replacing timeout) ⟨"", ["xdg", "ramlkit"]⟩ (replacing timeout).world.disk ∧
      (projectIn (replacing timeout).world.disk).IsPlain) ∧
    ¬Escapes (replacing "") ⟨none, none⟩ ⟨"", ["xdg", "ramlkit"]⟩ (replacing "").world.disk ∧
    ¬Escapes (replacing "soon") ⟨none, none⟩ ⟨"", ["xdg", "ramlkit"]⟩
      (replacing "soon").world.disk ∧
    ¬((∃ c t, effective ⟨none, none⟩ (replacing "10") = .ok c t) ∨
      ∃ words t, effective ⟨none, none⟩ (replacing "10") = .error (.config words) t) := by
  -- each run is evaluated, and the equivalence says what that means
  have hiff := fun timeout => effective_reports_iff ⟨none, none⟩ (replacing timeout)
    ⟨"", ["xdg", "ramlkit"]⟩ (replacing timeout).world.disk (finds_replacing timeout)
    (projectIn_replacing_isPlain timeout)
  have hreported : ∀ timeout, (match effective ⟨none, none⟩ (replacing timeout) with
      | .error (.config _) _ => true
      | _ => false) = true →
      ∃ words t, effective ⟨none, none⟩ (replacing timeout) = .error (.config words) t := by
    intro timeout h
    split at h
    · rename_i words t hrun
      exact ⟨words, t, hrun⟩
    · cases h
  refine ⟨fun timeout => ⟨finds_replacing timeout, projectIn_replacing_isPlain timeout⟩, ?_, ?_, ?_⟩
  · exact (hiff "").mp (.inr (hreported "" (by decide +kernel)))
  · exact (hiff "soon").mp (.inr (hreported "soon" (by decide +kernel)))
  · exact fun h => (hiff "10").mp h replacing_escapes

/-- A time from outside of the files, for a group that is none, is not reported. -/
theorem not_reported_of_replaced_group :
    ¬∀ (o : Overrides) (s : Session) (p : Path) (d : Disk), Finds s p d →
      (projectIn d).IsPlain → (∃ c t, effective o s = .ok c t) ∨
        ∃ words t, effective o s = .error (.config words) t := by
  intro h
  have hfails : (match effective ⟨none, none⟩ (replacing "10") with
      | .error .noGroup _ => true
      | _ => false) = true := by decide +kernel
  rcases h ⟨none, none⟩ (replacing "10") _ _ (finds_replacing "10")
    (projectIn_replacing_isPlain "10") with ⟨c, t, hrun⟩ | ⟨words, t, hrun⟩
  · rw [hrun] at hfails
    cases hfails
  · rw [hrun] at hfails
    cases hfails

end Settings
end Raml
