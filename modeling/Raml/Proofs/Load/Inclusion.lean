import Mathlib.Data.List.Nodup
import Mathlib.Data.List.Perm.Subperm
import Mathlib.Logic.Relation
import Raml.Load.Inclusion
import Raml.Proofs.Outcome

/-!
# Inclusions that run in a circle

Texts that include one another are a graph, and expanding a text walks it depth first. A `Place` is
where the walk stands: a text, the folder from which its references start, and the chain of
locations that are being expanded. Nothing is kept between one branch of the walk and the next, so
it is described by the places that it comes to, `Descends`, and no order is needed.

A step never takes a location that is in the chain, so the chain holds no location twice but those
that it had from the start. That bounds the walk where the locations are finitely many, and
`expand_spec` tells what it comes to: a failure that names a circle exactly where there is one.
-/

namespace Raml.Inclusion

open Relation (ReflTransGen)

/-! ## Where expanding leads -/

/-- The text at a location as it is included: an empty one if the content is not valid UTF-8, and
none if there is nothing to read. -/
def textAt (a : Access) (location : String) : Option String :=
  match a.store.read location with
  | .ok bytes => some ((Text.Utf8.decode bytes).toOption.getD "")
  | .error _ => none

/-- A text that is being expanded, the folder from which its references start, and the locations
that are being expanded down to it, the outermost first. -/
structure Place where
  chain : List String
  base : String
  text : String
  deriving DecidableEq

/-- The lines of a text that hold a directive, taken apart. -/
def Place.directives (p : Place) : List Line := (Text.lines p.text).filterMap Line.ofString?

/-- Whether a line of the text is a directive that refers to a location. -/
def Place.Refers (p : Place) (d : Line) (m : String) : Prop :=
  d ∈ p.directives ∧ Location.join p.base d.reference = .ok m

/-- The text that a directive leads to: what it includes, unless a schema may stand there, or the
location is being expanded. -/
def Place.include? (a : Access) (p : Place) (d : Line) : Option Place := do
  let m ← (Location.join p.base d.reference).toOption
  if d.isOpaque || p.chain.contains m then none
  else
    let text ← textAt a m
    let base ← (Location.folder m).toOption
    return ⟨p.chain ++ [m], base, text⟩

/-- Expanding one text leads to another. -/
def Descends (a : Access) (p q : Place) : Prop := ∃ d ∈ p.directives, p.include? a d = some q

instance (a : Access) (p q : Place) : Decidable (Descends a p q) :=
  inferInstanceAs (Decidable (∃ d ∈ p.directives, _))

/-- Whether expanding a text leads to a reference to a location that is being expanded. -/
def Loops (a : Access) (p : Place) : Prop :=
  ∃ q, ReflTransGen (Descends a) p q ∧ ∃ d m, q.Refers d m ∧ m ∈ q.chain

/-- Whether a directive can be carried out that refers to a location: there is something to read,
and if it is going to be expanded, there is a folder from which to go on. -/
def CanInclude (a : Access) (d : Line) (m : String) : Prop :=
  ∃ text, textAt a m = some text ∧
    (text = "" ∨ d.isOpaque = true ∨ ∃ folder, Location.folder m = .ok folder)

/-- Whether every reference to which expanding a text leads means a location, and one that can be
included unless it is being expanded. -/
def IsReadable (a : Access) (p : Place) : Prop :=
  ∀ q, ReflTransGen (Descends a) p q → ∀ d ∈ q.directives,
    ∃ m, Location.join q.base d.reference = .ok m ∧ (m ∈ q.chain ∨ CanInclude a d m)

/-- What a directive can fail with, apart from what the text fails with that it includes. -/
inductive Stops (a : Access) (p : Place) (d : Line) : Error → Prop
  | malformed {e : Error} (join : Location.join p.base d.reference = .error e) : Stops a p d e
  | circle {m : String} (refers : p.Refers d m) (old : m ∈ p.chain) :
    Stops a p d (.cyclic (p.chain ++ [m]))
  | unreadable {m : String} {e : Error} (refers : p.Refers d m) (new : m ∉ p.chain)
    (missing : textAt a m = none) (reason : e = .location ∨ ∃ words fault, e = .fetch words fault) :
    Stops a p d e
  | homeless {m text : String} {e : Error} (refers : p.Refers d m) (new : m ∉ p.chain)
    (found : textAt a m = some text) (full : text ≠ "") (transparent : d.isOpaque = false)
    (folder : Location.folder m = .error e) : Stops a p d e

/-- A line leads to another place exactly if what it refers to is read and is not open already. -/
theorem include?_eq_some {a : Access} {p q : Place} {d : Line} : p.include? a d = some q ↔
    ∃ m, Location.join p.base d.reference = .ok m ∧ d.isOpaque = false ∧ m ∉ p.chain ∧
      ∃ text base, textAt a m = some text ∧ Location.folder m = .ok base ∧
        ⟨p.chain ++ [m], base, text⟩ = q := by
  simp only [Place.include?, Option.bind_eq_bind, Option.bind_eq_some_iff, toOption_eq_some]
  refine exists_congr fun m => and_congr_right fun _ => ?_
  by_cases hschema : d.isOpaque = true
  · simp [hschema]
  · by_cases hchain : m ∈ p.chain
    · simp [hchain]
    · simp [hschema, hchain, Option.bind_eq_some_iff, toOption_eq_some]

/-! ## One line -/

section Line

variable {a : Access} {p : Place} {j j' : Journal}
  {expand : List String → String → String → Load (List String)} {line : String} {d : Line}

theorem textAt_of_content {reference m text : String} (h : content a reference m j = .ok text j') :
    textAt a m = some text := by
  obtain ⟨bytes, j₁, hbytes, h⟩ := of_run_bind h
  obtain ⟨_, j₂, -, hbytes⟩ := of_run_bind hbytes
  rw [textAt]
  cases hread : a.store.read m with
  | error f => rw [hread] at hbytes; cases f <;> cases hbytes
  | ok bs =>
    rw [hread] at hbytes
    cases hbytes
    cases hdecode : Text.Utf8.decode bytes with
    | ok s =>
      rw [hdecode] at h
      cases h
      simp [hdecode, Except.toOption]
    | error f =>
      rw [hdecode] at h
      cases h
      simp [hdecode, Except.toOption]

/-- What cannot be read fails for its location or for the fault of the store. -/
theorem textAt_of_content_error {reference m : String} {e : Error}
    (h : content a reference m j = .error e j') :
    textAt a m = none ∧ (e = .location ∨ ∃ words fault, e = .fetch words fault) := by
  -- noting a location cannot fail, and what is no text is only warned of
  rcases of_run_bind_error h with hbytes | ⟨bytes, j₁, -, h⟩
  · rcases of_run_bind_error hbytes with hnote | ⟨_, j₂, -, hbytes⟩
    · cases hnote
    · rw [textAt]
      cases hread : a.store.read m with
      | ok bs => rw [hread] at hbytes; cases hbytes
      | error f =>
        rw [hread] at hbytes
        cases f with
        | location =>
          cases hbytes
          exact ⟨rfl, .inl rfl⟩
        | fetch f =>
          cases hbytes
          exact ⟨rfl, .inr ⟨_, _, rfl⟩⟩
  · dsimp only at h
    cases hdecode : Text.Utf8.decode bytes with
    | ok s => rw [hdecode] at h; cases h
    | error f => rw [hdecode] at h; cases h

/-- A line with a directive that can be expanded gives way to what it includes: to the text as it
is, or to the lines that come of expanding it. -/
theorem of_expandLine_ok {result : List String}
    (h : expandLine a expand p.chain p.base line j = .ok result j')
    (hd : Line.ofString? line = some d) :
    ∃ m, Location.join p.base d.reference = .ok m ∧ m ∉ p.chain ∧ ∃ text, textAt a m = some text ∧
      ((text = "" ∨ d.isOpaque = true) ∧ result = d.spliced (Text.lines text) ∨
        text ≠ "" ∧ d.isOpaque = false ∧
        ∃ folder content j₁ j₂, Location.folder m = .ok folder ∧
          expand (p.chain ++ [m]) folder text j₁ = .ok content j₂ ∧
          result = d.spliced content) := by
  rw [expandLine, hd] at h
  obtain ⟨m, j₁, hm, h⟩ := of_run_bind h
  refine ⟨m, of_run_ofExcept hm, ?_⟩
  by_cases hchain : m ∈ p.chain
  · rw [if_pos (List.contains_iff_mem.mpr hchain)] at h
    obtain ⟨_, _, h, -⟩ := of_run_bind h
    cases h
  · rw [if_neg (mt List.contains_iff_mem.mp hchain)] at h
    obtain ⟨text, j₂, htext, h⟩ := of_run_bind h
    refine ⟨hchain, text, textAt_of_content htext, ?_⟩
    -- an empty text and an opaque one are spliced as they are
    split at h
    · rename_i hends
      cases h
      exact .inl ⟨(Bool.or_eq_true_iff.mp hends).imp_left String.isEmpty_iff.mp, rfl⟩
    · rename_i hgoes
      rw [Bool.or_eq_true, not_or, Bool.not_eq_true, Bool.not_eq_true] at hgoes
      obtain ⟨folder, j₃, hfolder, h⟩ := of_run_bind h
      obtain ⟨content, j₄, hcontent, h⟩ := of_run_bind h
      cases h
      refine .inr ⟨fun hempty => ?_, hgoes.2, folder, content, j₃, _, of_run_ofExcept hfolder,
        hcontent, rfl⟩
      simp [hempty] at hgoes

/-- A line fails because of its directive, or because of the text that it includes. -/
theorem of_expandLine_error {e : Error}
    (h : expandLine a expand p.chain p.base line j = .error e j') :
    ∃ d, Line.ofString? line = some d ∧ (d ∈ p.directives → Stops a p d e ∨
      ∃ q, Descends a p q ∧ ∃ j₁ j₂, expand q.chain q.base q.text j₁ = .error e j₂) := by
  rw [expandLine] at h
  cases hd : Line.ofString? line with
  | none => rw [hd] at h; cases h
  | some d =>
    rw [hd] at h
    refine ⟨d, rfl, fun hmem => ?_⟩
    rcases of_run_bind_error h with hm | ⟨m, j₁, hm, h⟩
    · exact .inl (.malformed (of_run_ofExcept_error hm))
    have hrefers : p.Refers d m := ⟨hmem, of_run_ofExcept hm⟩
    by_cases hchain : m ∈ p.chain
    · rw [if_pos (List.contains_iff_mem.mpr hchain)] at h
      rcases of_run_bind_error h with h | ⟨_, _, h, -⟩
      · cases h
        exact .inl (.circle hrefers hchain)
      · cases h
    · rw [if_neg (mt List.contains_iff_mem.mp hchain)] at h
      rcases of_run_bind_error h with htext | ⟨text, j₂, htext, h⟩
      · obtain ⟨hnone, hreason⟩ := textAt_of_content_error htext
        exact .inl (.unreadable hrefers hchain hnone hreason)
      have hfound : textAt a m = some text := textAt_of_content htext
      split at h
      · cases h
      · rename_i hgoes
        rw [Bool.or_eq_true, not_or, Bool.not_eq_true, Bool.not_eq_true] at hgoes
        obtain ⟨hempty, hschema⟩ := hgoes
        -- a text that is gone into has no folder, or fails further down
        rcases of_run_bind_error h with hfolder | ⟨folder, j₃, hfolder, h⟩
        · have hfull : text ≠ "" := fun heq => by simp [heq] at hempty
          exact .inl (.homeless hrefers hchain hfound hfull hschema (of_run_ofExcept_error hfolder))
        · rcases of_run_bind_error h with h | ⟨_, _, -, h⟩
          · have hnext := include?_eq_some.mpr ⟨m, hrefers.2, hschema, hchain, text, folder, hfound,
              of_run_ofExcept hfolder, rfl⟩
            exact .inr ⟨_, ⟨d, hmem, hnext⟩, j₃, j', h⟩
          · cases h

end Line

/-! ## Texts -/

section Texts

variable {a : Access} {p q : Place} {j j' : Journal} {e : Error}

theorem mem_directives {d : Line} :
    d ∈ p.directives ↔ ∃ line ∈ Text.lines p.text, Line.ofString? line = some d :=
  List.mem_filterMap

/-- If all lines can be expanded, each of them can. -/
theorem of_expandLines_ok {expandLine : String → Load (List String)} {lines result : List String}
    (h : expandLines expandLine lines j = .ok result j') :
    ∀ line ∈ lines, ∃ j₁ result j₂, expandLine line j₁ = .ok result j₂ := by
  induction lines generalizing j j' result with
  | nil => exact List.forall_mem_nil _
  | cons line lines ih =>
    obtain ⟨first, j₁, hfirst, h⟩ := of_run_bind h
    obtain ⟨rest, j₂, hrest, -⟩ := of_run_bind h
    exact List.forall_mem_cons.mpr ⟨⟨j, first, j₁, hfirst⟩, ih hrest⟩

/-- If the lines cannot be expanded, one of them cannot. -/
theorem of_expandLines_error {expandLine : String → Load (List String)} {lines : List String}
    (h : expandLines expandLine lines j = .error e j') :
    ∃ line ∈ lines, ∃ j₁ j₂, expandLine line j₁ = .error e j₂ := by
  induction lines generalizing j j' with
  | nil => cases h
  | cons line lines ih =>
    rcases of_run_bind_error h with h | ⟨first, j₁, -, h⟩
    · exact ⟨line, List.mem_cons_self .., j, j', h⟩
    · rcases of_run_bind_error h with h | ⟨rest, j₂, -, h⟩
      · obtain ⟨line', hline, hfails⟩ := ih h
        exact ⟨line', List.mem_cons_of_mem _ hline, hfails⟩
      · cases h

/-- What a text fails with comes from a directive to which expanding it leads, or from the bound on
how many texts can stand inside one another. -/
theorem of_expand_error {depth : Nat}
    (h : expand a depth p.chain p.base p.text j = .error e j') :
    ∃ q, ReflTransGen (Descends a) p q ∧
      ((e = .tooDeep ∧ q.chain.length = p.chain.length + depth) ∨
        ∃ d ∈ q.directives, Stops a q d e) := by
  -- each step down uses up one of the depth and puts one place on the chain
  induction depth generalizing p j j' with
  | zero =>
    cases h
    exact ⟨p, .refl, .inl ⟨rfl, rfl⟩⟩
  | succ depth ih =>
    obtain ⟨line, hline, j₁, j₂, hfails⟩ := of_expandLines_error h
    obtain ⟨d, hd, hcause⟩ := of_expandLine_error hfails
    have hmem : d ∈ p.directives := mem_directives.mpr ⟨line, hline, hd⟩
    rcases hcause hmem with hstops | ⟨q, hq, j₃, j₄, hinner⟩
    · exact ⟨p, .refl, .inr ⟨d, hmem, hstops⟩⟩
    · obtain ⟨r, hr, hcause⟩ := ih hinner
      refine ⟨r, .head hq hr, hcause.imp_left ?_⟩
      rintro ⟨rfl, hlength⟩
      obtain ⟨d, -, hnext⟩ := hq
      obtain ⟨m, -, -, -, text, base, -, -, rfl⟩ := include?_eq_some.mp hnext
      refine ⟨rfl, ?_⟩
      rw [hlength, List.length_append, List.length_singleton]
      omega

theorem directives_empty {chain : List String} {base : String} :
    (⟨chain, base, ""⟩ : Place).directives = [] := by
  rfl

/-- Where a text can be expanded, every directive to which that leads refers to a location that is
not being expanded. -/
theorem of_expand_ok {depth : Nat} {result : List String}
    (h : expand a depth p.chain p.base p.text j = .ok result j')
    (hq : ReflTransGen (Descends a) p q) :
    ∀ d ∈ q.directives, ∃ m, Location.join q.base d.reference = .ok m ∧ m ∉ q.chain := by
  -- the depth goes down with the descent to the place in question
  induction depth generalizing p j j' result with
  | zero => cases h
  | succ depth ih =>
    have hlines := of_expandLines_ok h
    rcases hq.cases_head with rfl | ⟨p', ⟨d, hd, hnext⟩, hq⟩
    · intro d hd
      obtain ⟨line, hline, hd⟩ := mem_directives.mp hd
      obtain ⟨j₁, _, j₂, hok⟩ := hlines line hline
      obtain ⟨m, hm, hchain, -⟩ := of_expandLine_ok hok hd
      exact ⟨m, hm, hchain⟩
    · obtain ⟨m, hm, hschema, -, text, base, htext, hbase, rfl⟩ := include?_eq_some.mp hnext
      obtain ⟨line, hline, hd⟩ := mem_directives.mp hd
      obtain ⟨j₁, _, j₂, hok⟩ := hlines line hline
      obtain ⟨m', hm', -, text', htext', hgoes⟩ := of_expandLine_ok hok hd
      obtain rfl := Except.ok.inj (hm.symm.trans hm')
      obtain rfl := Option.some.inj (htext.symm.trans htext')
      rcases hgoes with ⟨rfl | hschema', -⟩ | ⟨-, -, base', _, j₃, j₄, hbase', hinner, -⟩
      · -- an empty text has no directives, and leads nowhere
        rcases hq.cases_head with rfl | ⟨_, ⟨d', hd', -⟩, -⟩
        · rw [directives_empty]
          exact List.forall_mem_nil _
        · rw [directives_empty] at hd'
          cases hd'
      · rw [hschema] at hschema'
        cases hschema'
      · obtain rfl := Except.ok.inj (hbase.symm.trans hbase')
        exact ih (p := ⟨p.chain ++ [m], base, text⟩) hinner hq

/-- The chain only grows, and by locations that were not in it. -/
theorem chain_of_reached (hq : ReflTransGen (Descends a) p q) :
    ∃ path : List String, q.chain = p.chain ++ path ∧ path.Nodup ∧ ∀ m ∈ path, m ∉ p.chain := by
  induction hq with
  | refl => exact ⟨[], (List.append_nil _).symm, List.nodup_nil, List.forall_mem_nil _⟩
  | tail _ hstep ih =>
    obtain ⟨path, hpath, hnodup, hnew⟩ := ih
    obtain ⟨d, -, hnext⟩ := hstep
    obtain ⟨m, -, -, hm, text, base, -, -, rfl⟩ := include?_eq_some.mp hnext
    rw [hpath, List.mem_append, not_or] at hm
    refine ⟨path ++ [m], by rw [hpath, List.append_assoc], ?_, ?_⟩
    · rw [← List.concat_eq_append]
      exact List.Nodup.concat hm.2 hnodup
    · rw [List.forall_mem_append, List.forall_mem_singleton]
      exact ⟨hnew, hm.1⟩

/-- Whether expanding a text comes to no other locations than those of a table. -/
def StaysIn (a : Access) (docs : List String) (p : Place) : Prop :=
  ∀ q, ReflTransGen (Descends a) p q → ∀ m ∈ q.chain, m ∈ p.chain ∨ m ∈ docs

/-- There are no others if the table has every location where there is something to read. -/
theorem staysIn_of_forall_read {docs : List String}
    (hdocs : ∀ l bytes, a.store.read l = .ok bytes → l ∈ docs) : StaysIn a docs p := by
  intro q hq
  induction hq with
  | refl => exact fun m hm => .inl hm
  | tail _ hstep ih =>
    obtain ⟨d, -, hnext⟩ := hstep
    obtain ⟨m, -, -, -, text, base, htext, -, rfl⟩ := include?_eq_some.mp hnext
    have hm : m ∈ docs := by
      rw [textAt] at htext
      split at htext
      · exact hdocs m _ ‹_›
      · cases htext
    rw [List.forall_mem_append, List.forall_mem_singleton]
    exact ⟨ih, .inr hm⟩

/-- Along a descent the chain grows by no more than there are documents. -/
theorem length_chain_le {docs : List String} (hdocs : StaysIn a docs p)
    (hq : ReflTransGen (Descends a) p q) : q.chain.length ≤ p.chain.length + docs.length := by
  obtain ⟨path, hpath, hnodup, hnew⟩ := chain_of_reached hq
  have hsub : path ⊆ docs := by
    intro m hm
    have hmem : m ∈ q.chain := hpath ▸ List.mem_append_right _ hm
    exact (hdocs q hq m hmem).resolve_left (hnew m hm)
  have hlength : path.length ≤ docs.length := (hnodup.subperm hsub).length_le
  rw [hpath, List.length_append]
  omega

end Texts

/-! ## What goes wrong -/

theorem join_error {base reference : String} {e : Error}
    (h : Location.join base reference = .error e) : e = .location := by
  rw [Location.join] at h
  split at h
  · cases h
  · split at h
    · split at h
      · cases h
      · exact (Except.error.inj h).symm
    · cases h

theorem folder_error {location : String} {e : Error} (h : Location.folder location = .error e) :
    e = .location := by
  rw [Location.folder, Location.split, map_eq_error] at h
  split at h
  · split at h
    · cases h
    · exact (Except.error.inj h).symm
  · cases h

section Outcome

variable {a : Access} {p : Place} {d : Line} {e : Error}

/-- The bound is not what a directive fails with. -/
theorem Stops.ne_tooDeep (h : Stops a p d e) : e ≠ .tooDeep := by
  rintro rfl
  cases h with
  | malformed hjoin => cases join_error hjoin
  | unreadable _ _ _ hreason =>
    rcases hreason with h | ⟨words, fault, h⟩ <;> cases h
  | homeless _ _ _ _ _ hfolder => cases folder_error hfolder

/-- A directive that fails with a circle refers back. -/
theorem Stops.of_cyclic {c : List String} (h : Stops a p d (.cyclic c)) :
    ∃ m, p.Refers d m ∧ m ∈ p.chain ∧ c = p.chain ++ [m] := by
  cases h with
  | malformed hjoin => cases join_error hjoin
  | circle hrefers hold => exact ⟨_, hrefers, hold, rfl⟩
  | unreadable _ _ _ hreason =>
    rcases hreason with h | ⟨words, fault, h⟩ <;> cases h
  | homeless _ _ _ _ _ hfolder => cases folder_error hfolder

/-- A directive that can be carried out fails with nothing but a circle. -/
theorem Stops.cyclic_of_canInclude (h : Stops a p d e) {m : String}
    (hm : Location.join p.base d.reference = .ok m) (hcan : m ∈ p.chain ∨ CanInclude a d m) :
    ∃ c, e = .cyclic c := by
  have hsame : ∀ {n}, p.Refers d n → n = m := fun hn => Except.ok.inj (hn.2.symm.trans hm)
  cases h with
  | malformed hjoin => cases hjoin.symm.trans hm
  | circle hrefers hold => exact ⟨_, rfl⟩
  | unreadable hrefers hnew hmissing _ =>
    obtain rfl := hsame hrefers
    obtain ⟨text, htext, -⟩ := hcan.resolve_left hnew
    cases hmissing.symm.trans htext
  | homeless hrefers hnew hfound hfull htransparent hfolder =>
    obtain rfl := hsame hrefers
    obtain ⟨text, htext, hgoes⟩ := hcan.resolve_left hnew
    obtain rfl := Option.some.inj (hfound.symm.trans htext)
    rcases hgoes with hempty | hschema | ⟨base, hbase⟩
    · exact absurd hempty hfull
    · cases htransparent.symm.trans hschema
    · cases hfolder.symm.trans hbase

end Outcome

/--
**Expanding comes to an end, and refuses exactly the inclusions that run in a circle.** Where it
comes to finitely many locations, it never runs out of the bound. It fails with a circle only if it
is led to a reference to a location that is being expanded, or was from the start, and the locations
that the failure names end in one that was there before. Where everything that it is led to can be
read, it fails so whenever there is such a reference, and else it succeeds: a location can be
included any number of times beside one another or along different branches.
-/
theorem expand_spec (a : Access) (docs chain : List String) (base text : String) (j : Journal)
    (hdepth : docs.length ≤ a.store.depth) (hdocs : StaysIn a docs ⟨chain, base, text⟩) :
    (∀ j', a.expand chain base text j ≠ .error .tooDeep j') ∧
      (∀ c j', a.expand chain base text j = .error (.cyclic c) j' →
        Loops a ⟨chain, base, text⟩ ∧ ∃ front last, c = front ++ [last] ∧ last ∈ front) ∧
      (IsReadable a ⟨chain, base, text⟩ →
        ((∃ c j', a.expand chain base text j = .error (.cyclic c) j') ↔
          Loops a ⟨chain, base, text⟩) ∧
        (¬Loops a ⟨chain, base, text⟩ → ∃ s j', a.expand chain base text j = .ok s j')) := by
  have hcause : ∀ e j', a.expand chain base text j = .error e j' →
      ∃ q, ReflTransGen (Descends a) ⟨chain, base, text⟩ q ∧ ∃ d ∈ q.directives, Stops a q d e := by
    intro e j' h
    rcases of_run_bind_error h with h | ⟨_, _, -, h⟩
    · obtain ⟨q, hq, ⟨-, hlength⟩ | hstops⟩ := of_expand_error (p := ⟨chain, base, text⟩) h
      · -- a chain that reaches the bound would hold more locations than there are
        have hle := length_chain_le hdocs hq
        simp only at hlength hle
        omega
      · exact ⟨q, hq, hstops⟩
    · cases h
  have hcircle : ∀ c j', a.expand chain base text j = .error (.cyclic c) j' →
      Loops a ⟨chain, base, text⟩ ∧ ∃ front last, c = front ++ [last] ∧ last ∈ front := by
    intro c j' h
    obtain ⟨q, hq, d, -, hstops⟩ := hcause _ _ h
    obtain ⟨m, hrefers, hold, rfl⟩ := hstops.of_cyclic
    exact ⟨⟨q, hq, d, m, hrefers, hold⟩, q.chain, m, rfl, hold⟩
  refine ⟨fun j' h => ?_, hcircle, fun hread => ?_⟩
  · obtain ⟨q, -, d, -, hstops⟩ := hcause _ _ h
    exact hstops.ne_tooDeep rfl
  -- nothing but a circle can be in the way, so there are two ways in which it ends
  · cases h : a.expand chain base text j with
    | ok s j' =>
      have hfree : ¬Loops a ⟨chain, base, text⟩ := by
        rintro ⟨q, hq, d, m, ⟨hd, hm⟩, hold⟩
        obtain ⟨lines, _, hlines, -⟩ := of_run_bind h
        obtain ⟨m', hm', hnew⟩ := of_expand_ok (p := ⟨chain, base, text⟩) hlines hq d hd
        obtain rfl := Except.ok.inj (hm.symm.trans hm')
        exact hnew hold
      refine ⟨⟨?_, fun hloops => absurd hloops hfree⟩, fun _ => ⟨s, j', rfl⟩⟩
      rintro ⟨c, j'', h'⟩
      cases h'
    | error e j' =>
      obtain ⟨q, hq, d, hd, hstops⟩ := hcause e j' h
      obtain ⟨m, hm, hcan⟩ := hread q hq d hd
      obtain ⟨c, rfl⟩ := hstops.cyclic_of_canInclude hm hcan
      have hloops : Loops a ⟨chain, base, text⟩ := (hcircle c j' h).1
      exact ⟨⟨fun _ => hloops, fun _ => ⟨c, j', rfl⟩⟩, fun hfree => absurd hloops hfree⟩

/-- Three files: the first two include each other, and the third one includes nothing. -/
def looped : Access where
  store := {
    read := fun l =>
      let text (s : String) : List UInt8 := s.toUTF8.toList
      if l = "first.raml" then .ok (text "next: !include second.raml\n")
      else if l = "second.raml" then .ok (text "next: !include first.raml\n")
      else if l = "third.raml" then .ok (text "usage: by all\n")
      else .error .location
    depth := 3 }
  settings := default

theorem looped_staysIn (p : Place) :
    StaysIn looped ["first.raml", "second.raml", "third.raml"] p := by
  refine staysIn_of_forall_read fun l bytes h => ?_
  by_contra hl
  simp only [List.mem_cons, List.not_mem_nil, or_false, not_or] at hl
  obtain ⟨hfirst, hsecond, hthird⟩ := hl
  simp [looped, hfirst, hsecond, hthird] at h

/-- Places that lead to no others are all to which each of them leads. -/
theorem mem_of_reached {a : Access} {places : List Place} {p q : Place}
    (hclosed : ∀ p ∈ places, ∀ d ∈ p.directives, ∀ q ∈ (p.include? a d).toList, q ∈ places)
    (hp : p ∈ places) (hq : ReflTransGen (Descends a) p q) : q ∈ places := by
  induction hq with
  | refl => exact hp
  | tail _ hstep ih =>
    obtain ⟨d, hd, hnext⟩ := hstep
    exact hclosed _ ih d hd _ (Option.mem_toList.mpr hnext)

/-- A place can be read if it is one of finitely many that lead to each other and can be read. -/
theorem isReadable_of_places {a : Access} (places : List Place) {p : Place}
    (hclosed : ∀ p ∈ places, ∀ d ∈ p.directives, ∀ q ∈ (p.include? a d).toList, q ∈ places)
    (hread : ∀ p ∈ places, ∀ d ∈ p.directives,
      ∃ m ∈ (Location.join p.base d.reference).toOption.toList,
        (textAt a m).isSome = true ∧ (Location.folder m).isOk = true)
    (hp : p ∈ places) : IsReadable a p := by
  intro q hq d hd
  obtain ⟨m, hm, htext, hfolder⟩ := hread q (mem_of_reached hclosed hp hq) d hd
  rw [Option.mem_toList, toOption_eq_some] at hm
  obtain ⟨text, htext⟩ := Option.isSome_iff_exists.mp htext
  exact ⟨m, hm, .inr ⟨text, htext, .inr (.inr (exists_of_isOk hfolder))⟩⟩

/-- A text that includes the first file. -/
def start : Place := ⟨["root.raml"], ".", "a: !include first.raml\n"⟩

/-- Where that leads. -/
def inFirst : Place := ⟨["root.raml", "first.raml"], ".", "next: !include second.raml\n"⟩

/-- Where that leads, which is the end of it: the first file is being expanded. -/
def inSecond : Place :=
  ⟨["root.raml", "first.raml", "second.raml"], ".", "next: !include first.raml\n"⟩

/-- A text that includes the third file twice. -/
def twice : Place := ⟨["root.raml"], ".", "a: !include third.raml\nb: !include third.raml\n"⟩

/-- Where that leads. -/
def inThird : Place := ⟨["root.raml", "third.raml"], ".", "usage: by all\n"⟩

theorem start_loops : Loops looped start := by
  have hfirst : Descends looped start inFirst := by decide +kernel
  have hsecond : Descends looped inFirst inSecond := by decide +kernel
  refine ⟨inSecond, .tail (.single hfirst) hsecond, ⟨"next: ", "first.raml", "", false⟩,
    "first.raml", ⟨?_, ?_⟩, ?_⟩
  · decide +kernel
  · decide +kernel
  · decide

theorem twice_closed : ∀ p ∈ [twice, inThird], ∀ d ∈ p.directives,
    ∀ q ∈ (p.include? looped d).toList, q ∈ [twice, inThird] := by
  decide +kernel

theorem twice_not_loops : ¬Loops looped twice := by
  rintro ⟨q, hq, d, m, ⟨hd, hm⟩, hold⟩
  have hfree : ∀ p ∈ [twice, inThird], ∀ d ∈ p.directives,
      ∀ m ∈ (Location.join p.base d.reference).toOption.toList, m ∉ p.chain := by
    decide +kernel
  have hmem : q ∈ [twice, inThird] := mem_of_reached twice_closed (List.mem_cons_self ..) hq
  exact hfree q hmem d hd m (by rw [hm]; exact List.mem_singleton_self _) hold

/-- Two files that include each other are refused, and a file that is included twice is not. -/
theorem looped_expands :
    (∃ c j, looped.expand ["root.raml"] "." "a: !include first.raml\n" .empty =
      .error (.cyclic c) j) ∧
    ∃ s j, looped.expand ["root.raml"] "." "a: !include third.raml\nb: !include third.raml\n"
      .empty = .ok s j := by
  have hstart : IsReadable looped start :=
    isReadable_of_places [start, inFirst, inSecond] (by decide +kernel) (by decide +kernel)
      (List.mem_cons_self ..)
  have htwice : IsReadable looped twice :=
    isReadable_of_places _ twice_closed (by decide +kernel) (List.mem_cons_self ..)
  obtain ⟨-, -, hcircle⟩ := expand_spec looped _ ["root.raml"] "." "a: !include first.raml\n"
    .empty (by decide) (looped_staysIn start)
  obtain ⟨-, -, hdone⟩ := expand_spec looped _ ["root.raml"] "."
    "a: !include third.raml\nb: !include third.raml\n" .empty (by decide) (looped_staysIn twice)
  exact ⟨(hcircle hstart).1.mpr start_loops, (hdone htwice).2 twice_not_loops⟩

end Raml.Inclusion
