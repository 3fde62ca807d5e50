import Raml.Load.Document
import Raml.Proofs.Outcome
import Raml.Proofs.Text.Blank
import Raml.Proofs.Text.Lines

/-!
# Documents with other line breaks

The first line of a document ends at a newline, the inclusions are looked for in lines that end at a
newline or a carriage return, and what is decoded has newlines alone. A carriage return before each
newline makes no difference to that: `loadText_breaks` says that such a document is read in the same
way, with the same outcome and the same record.

Where carriage returns stand alone, the whole document is its first line. If that names the version,
the document is read as an empty one, and what it holds is taken for a part of the version. So it
is read in the same way only if it is refused, or if there is nothing in it.
-/

namespace Raml

open Text (breakWith dropStart dropEnd dropAround isBlank)

/-! ## The first line -/

namespace Header

/-- The characters of a text after the marks of byte order at its start. -/
def unmarked (text : String) : List Char := dropStart (· == '\ufeff') text.toList

section Cut

variable {text : String} {first rest : List Char} (hfirst : '\n' ∉ first)
include hfirst

theorem cut_of_newline (h : unmarked text = first ++ '\n' :: rest) :
    cut text = (String.ofList (dropEnd (· == '\r') first), String.ofList rest) := by
  have htake : (first ++ '\n' :: rest).takeWhile (· != '\n') = first := by
    rw [List.takeWhile_append_of_pos (by grind), List.takeWhile_cons_of_neg (by decide),
      List.append_nil]
  rw [cut, ← unmarked, h, htake, List.drop_left, List.drop_one, List.tail_cons]

theorem cut_of_last (h : unmarked text = first) :
    cut text = (String.ofList (dropEnd (· == '\r') first), "") := by
  have htake : first.takeWhile (· != '\n') = first := List.takeWhile_eq_self_iff.mpr (by grind)
  rw [cut, ← unmarked, h, htake, List.drop_length, List.drop_nil]

end Cut

/-- The mark at the start of a text is no break. -/
theorem unmarked_withBreaks (text : String) {b : Char} (hb : b ≠ '\ufeff') (bs : List Char) :
    unmarked (Text.withBreaks (b :: bs) text) = breakWith (b :: bs) (unmarked text) := by
  rw [unmarked, unmarked, Text.withBreaks, String.toList_ofList]
  induction text.toList with
  | nil => rfl
  | cons c cs ih =>
    by_cases hmark : c = '\ufeff'
    · subst hmark
      rw [Text.breakWith_cons (by decide)]
      simpa [dropStart] using ih
    · have hstays : dropStart (· == '\ufeff') (c :: cs) = c :: cs :=
        Text.dropStart_of_head (by simpa using hmark)
      rw [hstays]
      by_cases hnewline : c = '\n'
      · rw [hnewline, Text.breakWith_newline]
        exact Text.dropStart_of_head (by simpa using hb)
      · rw [Text.breakWith_cons hnewline]
        exact Text.dropStart_of_head (by simpa using hmark)

/-- A text is its first line, or that line and what comes after the newline. -/
theorem unmarked_cases (text : String) :
    '\n' ∉ unmarked text ∨ ∃ first rest, '\n' ∉ first ∧ unmarked text = first ++ '\n' :: rest := by
  by_cases h : '\n' ∈ unmarked text
  · obtain ⟨first, rest, htext, hfirst⟩ := List.eq_append_cons_of_mem h
    exact .inr ⟨first, rest, hfirst, htext⟩
  · exact .inl h

/-- Carriage returns before the newlines leave the first line as it is. -/
theorem cut_withBreaks (text : String) : cut (Text.withBreaks ['\r', '\n'] text) =
    ((cut text).1, Text.withBreaks ['\r', '\n'] (cut text).2) := by
  have hunmarked := unmarked_withBreaks text (by decide : '\r' ≠ '\ufeff') ['\n']
  rcases unmarked_cases text with hfirst | ⟨first, rest, hfirst, htext⟩
  · rw [Text.breakWith_of_notMem hfirst] at hunmarked
    rw [cut_of_last hfirst hunmarked, cut_of_last hfirst rfl]
    rfl
  · have hbroken : unmarked (Text.withBreaks ['\r', '\n'] text) =
        first ++ ['\r'] ++ '\n' :: breakWith ['\r', '\n'] rest := by
      rw [hunmarked, htext, Text.breakWith_append, Text.breakWith_of_notMem hfirst,
        Text.breakWith_newline]
      simp
    have hnewline : '\n' ∉ first ++ ['\r'] := by simpa using hfirst
    rw [cut_of_newline hnewline hbroken, cut_of_newline hfirst htext,
      Text.dropEnd_append (List.forall_mem_singleton.mpr rfl), Text.withBreaks,
      String.toList_ofList]

/-! ## A document on one line -/

theorem notMem_breakWith_return (cs : List Char) : '\n' ∉ breakWith ['\r'] cs := by
  rw [breakWith, List.mem_flatMap]
  rintro ⟨c, -, hmem⟩
  split at hmem
  · simp at hmem
  · rename_i hc
    exact hc (List.mem_singleton.mp hmem).symm

/-- Where carriage returns stand alone, the document is its first line. -/
theorem cut_withReturns (text : String) : cut (Text.withBreaks ['\r'] text) =
    (String.ofList (dropEnd (· == '\r') (breakWith ['\r'] (unmarked text))), "") :=
  cut_of_last (notMem_breakWith_return _) (unmarked_withBreaks text (by decide) [])

/-- Whether something else stands at the start is not a question of what was dropped at the end. -/
theorem prefix_dropEnd {sub cs : List Char} {c : Char} (hc : c ∉ sub) :
    sub <+: dropEnd (· == c) cs ↔ sub <+: cs := by
  obtain ⟨b, hb, hcs⟩ := Text.eq_dropEnd_append (· == c) cs
  cases b with
  | nil => rw [← List.append_nil (dropEnd _ cs), ← hcs]
  | cons d b =>
    have hd : d = c := by simpa using hb d (List.mem_cons_self ..)
    rw [hd] at hcs
    have hprefix : sub <+: dropEnd (· == c) cs ++ c :: b ↔ sub <+: dropEnd (· == c) cs :=
      Text.prefix_append_cons hc
    rw [← hprefix, ← hcs]

/-- Whether a document names the version is a question of how it begins. -/
theorem startsWith_cut (text : String) :
    Text.startsWith versionLead (cut text).1 = true ↔ versionLead.toList <+: unmarked text := by
  have hreturn : '\r' ∉ versionLead.toList := by decide
  have hnewline : '\n' ∉ versionLead.toList := by decide
  rw [Text.startsWith, List.isPrefixOf_iff_prefix]
  rcases unmarked_cases text with hfirst | ⟨first, rest, hfirst, htext⟩
  · rw [cut_of_last hfirst rfl, String.toList_ofList, prefix_dropEnd hreturn]
  · rw [cut_of_newline hfirst htext, String.toList_ofList, prefix_dropEnd hreturn, htext,
      Text.prefix_append_cons hnewline]

/-- Breaks do not matter for a beginning that holds none. -/
theorem prefix_breakWith {sub cs : List Char} (hnewline : '\n' ∉ sub) (hreturn : '\r' ∉ sub) :
    sub <+: breakWith ['\r'] cs ↔ sub <+: cs := by
  induction cs generalizing sub with
  | nil => rfl
  | cons c cs ih =>
    cases sub with
    | nil => simp
    | cons d sub =>
      rw [List.mem_cons, not_or] at hnewline hreturn
      by_cases hc : c = '\n'
      · rw [hc, Text.breakWith_newline, List.singleton_append, List.cons_prefix_cons,
          List.cons_prefix_cons]
        exact ⟨fun h => absurd h.1.symm hreturn.1, fun h => absurd h.1.symm hnewline.1⟩
      · rw [Text.breakWith_cons hc, List.cons_prefix_cons, List.cons_prefix_cons,
          ih hnewline.2 hreturn.2]

theorem return_notMem_cut {text : String} (h : '\r' ∉ text.toList) :
    '\r' ∉ (cut text).2.toList := by
  rw [cut, String.toList_ofList]
  exact fun hmem => h ((List.dropWhile_sublist _).mem
    (List.mem_of_mem_drop (List.mem_of_mem_drop hmem)))

/-! ## The version -/

/-- A header is read exactly from a text that begins with its words, and the rest is the body. -/
theorem read_eq_ok {source text version body : String} :
    read source text = .ok (version, body) ↔ versionLead.toList <+: unmarked text ∧
      Text.trim (Text.dropFirst 2 (cut text).1) = version ∧ (cut text).2 = body := by
  rw [← startsWith_cut, read]
  by_cases hlead : Text.startsWith versionLead (cut text).1 = true <;> simp [hlead]

/-- Without these words the first line is reported. -/
theorem read_eq_error {source text : String} {e : Error} :
    read source text = .error e ↔
      ¬versionLead.toList <+: unmarked text ∧ e = .version source (cut text).1 := by
  rw [← startsWith_cut, read]
  by_cases hlead : Text.startsWith versionLead (cut text).1 = true <;> simp [hlead, eq_comm]

/-- The carriage returns that end a line do not count for the version it names. -/
theorem trim_dropFirst_dropEnd {cs : List Char} (h : versionLead.toList <+: cs) :
    Text.trim (Text.dropFirst 2 (String.ofList (dropEnd (· == '\r') cs))) =
      String.ofList (dropAround isBlank (cs.drop 2)) := by
  have hlead : versionLead.toList <+: dropEnd (· == '\r') cs := (prefix_dropEnd (by decide)).mpr h
  have hlength : 2 ≤ (dropEnd (· == '\r') cs).length := le_trans (by decide) hlead.length_le
  obtain ⟨b, hb, hcs⟩ := Text.eq_dropEnd_append (· == '\r') cs
  have hblank : ∀ c ∈ b, isBlank c = true := fun c hc => by
    rw [eq_of_beq (hb c hc)]
    decide
  have hdrop : cs.drop 2 = (dropEnd (· == '\r') cs).drop 2 ++ b := by
    conv_lhs => rw [hcs]
    exact List.drop_append_of_le_length hlength
  rw [Text.trim, Text.dropFirst, String.toList_ofList, String.toList_ofList, hdrop]
  exact congrArg _ (Text.dropAround_append (List.forall_mem_nil _) hblank _).symm

/-- A text is blank whatever its breaks are. -/
theorem blank_breakWith {cs : List Char} :
    (∀ c ∈ breakWith ['\r'] cs, isBlank c = true) ↔ ∀ c ∈ cs, isBlank c = true := by
  induction cs with
  | nil => rfl
  | cons c cs ih =>
    by_cases hc : c = '\n'
    · have hboth : isBlank '\r' = isBlank '\n' := by decide
      rw [hc, Text.breakWith_newline, List.singleton_append, List.forall_mem_cons,
        List.forall_mem_cons, ih, hboth]
    · rw [Text.breakWith_cons hc, List.forall_mem_cons, List.forall_mem_cons, ih]

/-- Where carriage returns stand alone, the version is the same only if nothing comes after it. -/
theorem read_withReturns {source text version body : String}
    (h : read source text = .ok (version, body)) :
    ∃ version', read source (Text.withBreaks ['\r'] text) = .ok (version', "") ∧
      (version' = version ↔ Text.allBlank body = true) := by
  obtain ⟨hlead, hversion, hbody⟩ := read_eq_ok.mp h
  have hunmarked := unmarked_withBreaks text (by decide : '\r' ≠ '\ufeff') []
  have hbroken : versionLead.toList <+: breakWith ['\r'] (unmarked text) :=
    (prefix_breakWith (by decide) (by decide)).mpr hlead
  refine ⟨String.ofList (dropAround isBlank ((breakWith ['\r'] (unmarked text)).drop 2)),
    read_eq_ok.mpr ⟨by rwa [hunmarked], ?_, by rw [cut_withReturns]⟩, ?_⟩
  · rw [cut_withReturns, trim_dropFirst_dropEnd hbroken]
  rw [← hversion, ← hbody]
  rcases unmarked_cases text with hfirst | ⟨first, rest, hfirst, htext⟩
  · rw [Text.breakWith_of_notMem hfirst, cut_of_last hfirst rfl, trim_dropFirst_dropEnd hlead]
    simp [Text.allBlank]
  · rw [htext, Text.prefix_append_cons (by decide)] at hlead
    have hshort : 2 ≤ first.length := le_trans (by decide) hlead.length_le
    obtain ⟨more, rfl⟩ := hlead
    rw [cut_of_newline hfirst htext, trim_dropFirst_dropEnd (List.prefix_append ..), htext,
      Text.breakWith_append, Text.breakWith_of_notMem hfirst, Text.breakWith_newline,
      List.drop_append_of_le_length hshort, String.ofList_inj]
    have hblank : isBlank '\r' = true := by decide
    -- trimming takes the rest of the document away from the version only if there is nothing in it
    have hiff := Text.dropAround_append_iff (p := isBlank) (c := 'R') (by decide)
      ("AML 1.0".toList ++ more) (['\r'] ++ breakWith ['\r'] rest)
    refine hiff.trans ?_
    rw [List.singleton_append, List.forall_mem_cons, blank_breakWith, Text.allBlank,
      String.toList_ofList, List.all_eq_true]
    simp [hblank]

end Header

/-! ## The document -/

/-- A text that means nothing holds no entries. -/
theorem Yaml.decode_of_isNull {s : String} (h : (Node.ofText? s).toOption.any (fun n =>
    (Meaning.value n).toOption.any Value.isNull) = true) (source : String) :
    decode s source = .ok [] := by
  rw [decode]
  cases hnode : Node.ofText? s with
  | error fault => simp [hnode, Except.toOption] at h
  | ok n =>
    cases hvalue : Meaning.value n with
    | error fault => simp [hnode, hvalue, Except.toOption] at h
    | ok v =>
      have hnull : v.isNull = true := by simpa [hnode, hvalue, Except.toOption] using h
      cases v with
      | null => cases n <;> simp only [hvalue]
      | _ => cases hnull

/--
Whether two readings come to the same: they give the same version and entries, or they fail with
errors of one kind.
-/
def Agree : EStateM.Result Error Journal Draft → EStateM.Result Error Journal Draft → Prop
  | .ok d _, .ok d' _ => d = d'
  | .error e _, .error e' _ => e.ctorIdx = e'.ctorIdx
  | _, _ => False

theorem agree_ok_iff {d : Draft} {j : Journal} {r : EStateM.Result Error Journal Draft} :
    Agree (.ok d j) r ↔ ∃ j', r = .ok d j' := by
  cases r <;> simp [Agree, eq_comm]

theorem agree_version (source first first' : String) (j j' : Journal) :
    Agree (.error (.version source first) j) (.error (.version source first') j') :=
  rfl

namespace Access

variable (a : Access) (chain : List String) (base source : String)

/-- A text whose header cannot be read is not loaded. -/
theorem loadText_of_error {text : String} {e : Error} (h : Header.read source text = .error e)
    (j : Journal) : a.loadText chain base source text j = .error e j := by
  rw [loadText, h]
  rfl

theorem loadText_of_ok {text version body : String}
    (h : Header.read source text = .ok (version, body)) :
    a.loadText chain base source text = (do
      let expanded ← a.expand chain base body
      return ⟨version, ← ofExcept (Yaml.decode expanded source)⟩) := by
  rw [loadText, h]
  rfl

/-- Carriage returns before the newlines make no difference. -/
theorem loadText_withBreaks {text : String} (h : '\r' ∉ text.toList) :
    a.loadText chain base source (Text.withBreaks ['\r', '\n'] text) =
      a.loadText chain base source text := by
  have hexpand : a.expand chain base (Text.withBreaks ['\r', '\n'] (Header.cut text).2) =
      a.expand chain base (Header.cut text).2 := by
    rw [expand, expand, Inclusion.expand, Inclusion.expand,
      Text.lines_withBreaks (Header.return_notMem_cut h)]
  -- the header is cut off at the first newline, whatever stands before it
  have hread : Header.read source (Text.withBreaks ['\r', '\n'] text) =
      (Header.read source text).map fun p => (p.1, Text.withBreaks ['\r', '\n'] p.2) := by
    rw [Header.read, Header.read, Header.cut_withBreaks]
    dsimp only
    split <;> rfl
  cases hsource : Header.read source text with
  | error e =>
    rw [hsource] at hread
    funext j
    rw [loadText_of_error a chain base source hread, loadText_of_error a chain base source hsource]
  | ok p =>
    rw [hsource] at hread
    have hbody : (Header.cut text).2 = p.2 := (Header.read_eq_ok.mp hsource).2.2
    rw [loadText_of_ok a chain base source hread, loadText_of_ok a chain base source hsource,
      ← hbody, hexpand]

/-- What was read has the version that its first line names. -/
theorem version_of_loadText {text version body : String} {d : Draft} {j j' : Journal}
    (h : Header.read source text = .ok (version, body))
    (hload : a.loadText chain base source text j = .ok d j') : d.version = version := by
  rw [loadText_of_ok a chain base source h] at hload
  obtain ⟨expanded, j₁, -, hload⟩ := of_run_bind hload
  obtain ⟨entries, j₂, -, hload⟩ := of_run_bind hload
  cases hload
  rfl

/-- A text is loaded if its header, its inclusions and its values can be read. -/
theorem loadText_eq_ok {text version body expanded : String} {es : List (Value × Value)}
    {j j' : Journal} (hread : Header.read source text = .ok (version, body))
    (hexpand : a.expand chain base body j = .ok expanded j')
    (hdecode : Yaml.decode expanded source = .ok es) :
    a.loadText chain base source text j = .ok ⟨version, es⟩ j' := by
  rw [loadText_of_ok a chain base source hread, bind_of_ok hexpand, hdecode]
  rfl

/-- A document that is all in its first line has no entries. -/
theorem loadText_of_line {text version : String} (h : Header.read source text = .ok (version, ""))
    (j : Journal) : a.loadText chain base source text j = .ok ⟨version, []⟩ j :=
  loadText_eq_ok a chain base source h rfl (Yaml.decode_of_isNull (by decide +kernel) source)

/--
A document with carriage returns before its newlines is read as the one without. With carriage
returns in the place of its newlines it comes to the same if it is refused for its first line, or if
there are only blanks after that line and the document has no entries; and not otherwise.
-/
theorem loadText_breaks {text : String} (h : '\r' ∉ text.toList) (j : Journal) :
    a.loadText chain base source (Text.withBreaks ['\r', '\n'] text) j =
      a.loadText chain base source text j ∧
    (Agree (a.loadText chain base source (Text.withBreaks ['\r'] text) j)
        (a.loadText chain base source text j) ↔
      ∀ version body, Header.read source text = .ok (version, body) →
        Text.allBlank body = true ∧
          ∃ j', a.loadText chain base source text j = .ok ⟨version, []⟩ j') := by
  refine ⟨congrFun (loadText_withBreaks a chain base source h) j, ?_⟩
  cases hsource : Header.read source text with
  | error e =>
    obtain ⟨hlead, rfl⟩ := Header.read_eq_error.mp hsource
    have hreturns : Header.read source (Text.withBreaks ['\r'] text) =
        .error (.version source (Header.cut (Text.withBreaks ['\r'] text)).1) := by
      rw [Header.read_eq_error, Header.unmarked_withBreaks text (by decide),
        Header.prefix_breakWith (by decide) (by decide)]
      exact ⟨hlead, rfl⟩
    rw [loadText_of_error a chain base source hreturns,
      loadText_of_error a chain base source hsource]
    refine iff_of_true (agree_version ..) fun version body hok => ?_
    cases hok
  | ok p =>
    obtain ⟨version, body⟩ := p
    obtain ⟨version', hreturns, hversion⟩ := Header.read_withReturns hsource
    -- with returns alone the whole document is its first line
    rw [loadText_of_line a chain base source hreturns, agree_ok_iff]
    constructor
    · rintro ⟨j', hload⟩ _ _ hok
      cases hok
      obtain rfl : version' = version := version_of_loadText a chain base source hsource hload
      exact ⟨hversion.mp rfl, j', hload⟩
    · intro hblank
      obtain ⟨hbody, hload⟩ := hblank version body rfl
      rwa [hversion.mpr hbody]

/-- Nothing to include from. -/
def nowhere : Access := ⟨⟨fun _ => .error .location, 0⟩, .usual⟩

/-- An empty document is one with any line breaks. -/
theorem empty_breaks : '\r' ∉ "#%RAML 1.0\n\n".toList ∧
    nowhere.loadText [] "." "<string>" "#%RAML 1.0\r\n\r\n" .empty =
      .ok ⟨"RAML 1.0", []⟩ .empty ∧
    Agree (nowhere.loadText [] "." "<string>" "#%RAML 1.0\r\r" .empty)
      (nowhere.loadText [] "." "<string>" "#%RAML 1.0\n\n" .empty) := by
  have hread : Header.read "<string>" "#%RAML 1.0\n\n" = .ok ("RAML 1.0", "\n") :=
    Header.read_eq_ok.mpr (by decide +kernel)
  have hload : nowhere.loadText [] "." "<string>" "#%RAML 1.0\n\n" .empty =
      .ok ⟨"RAML 1.0", []⟩ .empty :=
    loadText_eq_ok _ _ _ _ hread rfl (Yaml.decode_of_isNull (by decide +kernel) _)
  have hnone : '\r' ∉ "#%RAML 1.0\n\n".toList := by decide
  obtain ⟨hsame, hagree⟩ := loadText_breaks nowhere [] "." "<string>" hnone .empty
  refine ⟨hnone, hsame.trans hload, hagree.mpr fun version body hok => ?_⟩
  cases hread.symm.trans hok
  exact ⟨by decide, .empty, hload⟩

/-- With carriage returns alone, what a document holds is lost without an error. -/
theorem title_lost : ¬∀ text : String, '\r' ∉ text.toList →
    Agree (nowhere.loadText [] "." "<string>" (Text.withBreaks ['\r'] text) .empty)
      (nowhere.loadText [] "." "<string>" text .empty) := by
  intro h
  -- with carriage returns the whole text is one first line, and nothing is left for the body
  have hreturns : nowhere.loadText [] "." "<string>" "#%RAML 1.0\rtitle: Shop\r" .empty =
      .ok ⟨"RAML 1.0\rtitle: Shop", []⟩ .empty :=
    loadText_of_line _ _ _ _ (Header.read_eq_ok.mpr (by decide +kernel)) _
  obtain ⟨es, hdecode, hcount⟩ : ∃ es, Yaml.decode "title: Shop\n" "<string>" = .ok es ∧
      es.length = 1 :=
    toOption_map_eq_some.mp (by decide +kernel)
  have hread : Header.read "<string>" "#%RAML 1.0\ntitle: Shop\n" =
      .ok ("RAML 1.0", "title: Shop\n") := Header.read_eq_ok.mpr (by decide +kernel)
  have hnewlines : nowhere.loadText [] "." "<string>" "#%RAML 1.0\ntitle: Shop\n" .empty =
      .ok ⟨"RAML 1.0", es⟩ .empty :=
    loadText_eq_ok _ _ _ _ hread rfl hdecode
  have hsame := h "#%RAML 1.0\ntitle: Shop\n" (by decide)
  rw [hnewlines, show Text.withBreaks ['\r'] "#%RAML 1.0\ntitle: Shop\n" =
    "#%RAML 1.0\rtitle: Shop\r" by decide, hreturns] at hsame
  obtain rfl : [] = es := congrArg Draft.entries hsame
  cases hcount

end Access
end Raml
