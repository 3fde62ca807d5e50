import Raml.Proofs.Load.Library
import Raml.Resolution.Api

/-!
# What is asked of other hosts

Documents, the texts that they include and the libraries that they use are read by steps inside one
another, at any depth, and each of them may ask another host. All of them ask for locations in one
way, `Access.bytes`, so it is enough to know what a step adds to the record of locations:
`Access.Follows` says that the requests are those for its addresses, with the settings of the
access, and that none was asked for after one that could not be had. Steps one after another keep
that, whatever state they carry beside the journal, and so does a whole reading
(`requests_of_parse`).
-/

namespace Raml

/-! ## Locations on record -/

/-- Whether the record of a journal was continued by asking for locations. -/
structure Access.Asked (a : Access) (j j' : Journal) (ls : List String) : Prop where
  locations : j'.locations = j.locations ++ ls
  requests : j'.requests = j.requests ++ ls.flatMap a.requestFor

/-- Whether there is something to read at a location. -/
def Access.Has (a : Access) (location : String) : Prop := ∃ bytes, a.store.read location = .ok bytes

/-- Whether a step asks for nothing after a location at which there was nothing to read, and fails
if it has asked for one. `journal` tells the journal in the state of the step. -/
structure Access.Follows {σ α : Type} (a : Access) (journal : σ → Journal)
    (step : EStateM Error σ α) : Prop where
  ok : ∀ {s s' x}, step s = .ok x s' →
    ∃ ls, a.Asked (journal s) (journal s') ls ∧ ∀ l ∈ ls, a.Has l
  error : ∀ {s s' e}, step s = .error e s' →
    ∃ ls, a.Asked (journal s) (journal s') ls ∧ ∀ l ∈ ls.dropLast, a.Has l

namespace Access

variable {a : Access} {σ α β : Type} {journal : σ → Journal}

theorem asked_nil (j : Journal) : a.Asked j j [] :=
  ⟨(List.append_nil _).symm, (List.append_nil _).symm⟩

/-- What was asked for in two steps was asked for in their order. -/
theorem Asked.append {j j' j'' : Journal} {ls ls' : List String} (h : a.Asked j j' ls)
    (h' : a.Asked j' j'' ls') : a.Asked j j'' (ls ++ ls') where
  locations := by rw [h'.locations, h.locations, List.append_assoc]
  requests := by rw [h'.requests, h.requests, List.append_assoc, List.flatMap_append]

namespace Follows

theorem pure (x : α) : a.Follows journal (pure x : EStateM Error σ α) where
  ok h := by
    cases h
    exact ⟨[], asked_nil _, List.forall_mem_nil _⟩
  error h := nomatch h

theorem throw (e : Error) : a.Follows journal (throw e : EStateM Error σ α) where
  ok h := nomatch h
  error h := by
    cases h
    exact ⟨[], asked_nil _, List.forall_mem_nil _⟩

theorem ofExcept (x : Except Error α) : a.Follows journal (ofExcept x : EStateM Error σ α) := by
  cases x with
  | ok x => exact .pure x
  | error e => exact .throw e

/-- A change of the state beside the record of locations. -/
theorem modify {f : σ → σ} (hlocations : ∀ s, (journal (f s)).locations = (journal s).locations)
    (hrequests : ∀ s, (journal (f s)).requests = (journal s).requests) :
    a.Follows journal (modify f : EStateM Error σ PUnit) where
  ok h := by
    cases h
    refine ⟨[], ⟨?_, ?_⟩, List.forall_mem_nil _⟩
    · rw [hlocations, List.append_nil]
    · rw [hrequests, List.flatMap_nil, List.append_nil]
  error h := nomatch h

/-- Two steps one after the other: the second one is only taken if all locations of the first one
could be read. -/
theorem bind {step : EStateM Error σ α} {next : α → EStateM Error σ β}
    (h : a.Follows journal step) (hnext : ∀ x, a.Follows journal (next x)) :
    a.Follows journal (step >>= next) where
  ok hrun := by
    obtain ⟨x, s₁, hfirst, hsecond⟩ := of_run_bind hrun
    obtain ⟨ls, hls, hread⟩ := h.ok hfirst
    obtain ⟨ls', hls', hread'⟩ := (hnext x).ok hsecond
    exact ⟨ls ++ ls', hls.append hls', List.forall_mem_append.mpr ⟨hread, hread'⟩⟩
  error hrun := by
    obtain hfirst | ⟨x, s₁, hfirst, hsecond⟩ := of_run_bind_error hrun
    · exact h.error hfirst
    · obtain ⟨ls, hls, hread⟩ := h.ok hfirst
      obtain ⟨ls', hls', hread'⟩ := (hnext x).error hsecond
      refine ⟨ls ++ ls', hls.append hls', fun l hl => ?_⟩
      rw [List.dropLast_append] at hl
      split at hl
      · exact hread l (List.dropLast_subset _ hl)
      · exact (List.mem_append.mp hl).elim (hread l) (hread' l)

theorem map {step : EStateM Error σ α} (f : α → β) (h : a.Follows journal step) :
    a.Follows journal (do return f (← step)) :=
  h.bind fun _ => .pure _

end Follows

/-! ## Documents and inclusions -/

section Documents

variable (a : Access)

/-- The journal once a location is asked for. -/
def asking (location : String) (j : Journal) : Journal :=
  { j with
    locations := j.locations.concat location
    requests := j.requests ++ a.requestFor location }

/-- A location that is asked for is on record, and so is the request for it. -/
theorem asked_asking (location : String) (j : Journal) :
    a.Asked j (a.asking location j) [location] :=
  ⟨List.concat_eq_append, by rw [List.flatMap_singleton, asking]⟩

/-- The one place at which a location is asked for. -/
theorem follows_bytes (reference location : String) :
    a.Follows id (a.bytes reference location) := by
  -- the location is noted first, so it is on record whether there is something to read or not
  have hnote : ∀ j, a.note location j = .ok ⟨⟩ (a.asking location j) := fun _ => rfl
  cases hread : a.store.read location with
  | ok bs =>
    have hrun : ∀ j, a.bytes reference location j = .ok bs (a.asking location j) := fun j => by
      rw [bytes, bind_of_ok (hnote j), hread]
      rfl
    constructor
    · intro j j' x h
      cases (hrun j).symm.trans h
      exact ⟨_, a.asked_asking location j, List.forall_mem_singleton.mpr ⟨_, hread⟩⟩
    · intro j j' e h
      cases (hrun j).symm.trans h
  | error f =>
    have hrun : ∃ e, ∀ j, a.bytes reference location j = .error e (a.asking location j) := by
      cases f with
      | location =>
        refine ⟨.location, fun j => ?_⟩
        rw [bytes, bind_of_ok (hnote j), hread]
        rfl
      | fetch f =>
        refine ⟨.fetch (if reference.isEmpty then location else reference) f, fun j => ?_⟩
        rw [bytes, bind_of_ok (hnote j), hread]
        rfl
    obtain ⟨e, hrun⟩ := hrun
    constructor
    · intro j j' x h
      cases (hrun j).symm.trans h
    · intro j j' e h
      cases (hrun j).symm.trans h
      exact ⟨_, a.asked_asking location j, List.forall_mem_nil _⟩

/-- Reading a text fails at a location where there is nothing to read. -/
theorem follows_text (location : String) : a.Follows id (a.text location) := by
  refine (a.follows_bytes location location).bind fun bs => ?_
  split
  · exact .pure _
  · exact .throw _

theorem follows_content (reference location : String) :
    a.Follows id (Inclusion.content a reference location) := by
  refine (a.follows_bytes reference location).bind fun bs => ?_
  split
  · exact .pure _
  · exact Follows.bind (.modify (fun _ => rfl) fun _ => rfl) fun _ => .pure _

theorem follows_expandLine {expand : List String → String → String → Load (List String)}
    (h : ∀ chain base text, a.Follows id (expand chain base text)) (chain : List String)
    (base line : String) : a.Follows id (Inclusion.expandLine a expand chain base line) := by
  rw [Inclusion.expandLine]
  split
  · exact .pure _
  · rename_i l _
    refine Follows.bind (.ofExcept _) fun location => ?_
    have hrest : a.Follows id (do
        let text ← Inclusion.content a l.reference location
        if text.isEmpty || l.isOpaque then return l.spliced (Text.lines text)
        let folder ← ofExcept (Location.folder location)
        return l.spliced (← expand (chain ++ [location]) folder text)) := by
      refine (a.follows_content l.reference location).bind fun text => ?_
      split
      · exact .pure _
      · exact Follows.bind (.ofExcept _) fun folder => (h _ _ _).map _
    -- a location that is being expanded ends the line before the rest of it is reached
    split
    · exact Follows.bind (.throw _) fun _ => hrest
    · exact hrest

theorem follows_expandLines {expandLine : String → Load (List String)}
    (h : ∀ line, a.Follows id (expandLine line)) :
    ∀ lines : List String, a.Follows id (Inclusion.expandLines expandLine lines)
  | [] => .pure _
  | line :: rest => (h line).bind fun _ => (follows_expandLines h rest).map _

/-- Expanding stops at the first location where there is nothing to read. -/
theorem follows_expand : ∀ (depth : Nat) (chain : List String) (base text : String),
    a.Follows id (Inclusion.expand a depth chain base text)
  | 0, _, _, _ => .throw _
  | depth + 1, chain, base, _ =>
      a.follows_expandLines (a.follows_expandLine (follows_expand depth) chain base) _

/-- Loading a text stops at the first location where there is nothing to read. -/
theorem follows_loadText (chain : List String) (base source text : String) :
    a.Follows id (a.loadText chain base source text) := by
  refine Follows.bind (.ofExcept _) fun header => ?_
  refine ((a.follows_expand _ chain base header.2).map _).bind fun expanded => ?_
  exact Follows.map _ (.ofExcept _)

theorem follows_loadDocument (chain : List String) (location : String) :
    a.Follows id (a.loadDocument chain location) := by
  refine (a.follows_text location).bind fun text => ?_
  exact Follows.bind (.ofExcept _) fun folder => a.follows_loadText _ _ _ _

end Documents

/-! ## Libraries -/

section Libraries

variable (a : Access)

theorem follows_ofLoad {step : Load α} (h : a.Follows id step) :
    a.Follows Shelf.journal (Shelving.ofLoad step) where
  ok hrun := by
    rw [Shelving.ofLoad] at hrun
    split at hrun
    · rename_i hstep
      cases hrun
      exact h.ok hstep
    · cases hrun
  error hrun := by
    rw [Shelving.ofLoad] at hrun
    split at hrun
    · cases hrun
    · rename_i hstep
      cases hrun
      exact h.error hstep

theorem follows_toLoad {step : Shelving α} (h : a.Follows Shelf.journal step) :
    a.Follows id (Shelving.toLoad step) where
  ok hrun := by
    rw [Shelving.toLoad] at hrun
    split at hrun
    · rename_i hstep
      cases hrun
      exact h.ok hstep
    · cases hrun
  error hrun := by
    rw [Shelving.toLoad] at hrun
    split at hrun
    · cases hrun
    · rename_i hstep
      cases hrun
      exact h.error hstep

theorem follows_loadUses {load : String → Shelving Library}
    (h : ∀ location, a.Follows Shelf.journal (load location)) (base : String)
    (libraries : Table Library) (uses : Table String) :
    a.Follows Shelf.journal (Library.loadUses load base libraries uses) := by
  induction uses generalizing libraries with
  | nil => exact .pure _
  | cons e rest ih =>
    exact Follows.bind (.ofExcept _) fun location => (h location).bind fun library => ih _

theorem follows_loadNew {load : List String → String → Shelving Library}
    (h : ∀ chain location, a.Follows Shelf.journal (load chain location)) (chain : List String)
    (location : String) : a.Follows Shelf.journal (Library.loadNew a load chain location) := by
  refine (a.follows_ofLoad (a.follows_loadDocument [] location)).bind fun draft => ?_
  refine Follows.bind (.ofExcept _) fun library => Follows.bind (.ofExcept _) fun folder => ?_
  refine (a.follows_loadUses (h _) folder _ _).bind fun libraries => ?_
  exact Follows.bind (.modify (fun _ => rfl) fun _ => rfl) fun _ => .pure _

/-- Loading a library stops at the first location where there is nothing to read, be it one of its
own libraries. -/
theorem follows_load : ∀ (depth : Nat) (chain : List String) (location : String),
    a.Follows Shelf.journal (Library.load a depth chain location)
  | 0, _, _ => .throw _
  | depth + 1, chain, location => by
      have hnew := a.follows_loadNew (follows_load depth) chain location
      constructor
      · intro s s' x h
        rw [Library.load_succ] at h
        split at h
        · cases h
        · -- a library from the shelf asks for nothing
          cases hshelf : s.libraries.get? location with
          | some k =>
            rw [hshelf] at h
            cases h
            exact ⟨[], asked_nil _, List.forall_mem_nil _⟩
          | none =>
            rw [hshelf] at h
            exact hnew.ok h
      · intro s s' e h
        rw [Library.load_succ] at h
        split at h
        · cases h
          exact ⟨[], asked_nil _, List.forall_mem_nil _⟩
        · cases hshelf : s.libraries.get? location with
          | some k =>
            rw [hshelf] at h
            cases h
          | none =>
            rw [hshelf] at h
            exact hnew.error h

theorem follows_libraries (chain : List String) (base : String) (api : Api) :
    a.Follows Shelf.journal (a.libraries chain base api) :=
  (a.follows_loadUses (a.follows_load _ chain) base _ _).map _

end Libraries

/-! ## Whole documents -/

section Whole

variable (a : Access)

theorem follows_resolve (base source : String) (api : Api) :
    a.Follows id (a.resolve base source api) :=
  (a.follows_toLoad (a.follows_libraries [source] base api)).bind fun _ => .ofExcept _

/-- Parsing a document stops at the first location where there is nothing to read. -/
theorem follows_parse (source : String) : a.Follows id (a.parse source) := by
  refine (a.follows_loadDocument [] source).bind fun draft => ?_
  refine Follows.bind (.ofExcept _) fun base => Follows.bind (.ofExcept _) fun api => ?_
  exact a.follows_resolve base source api

theorem follows_parseText (base source text : String) :
    a.Follows id (a.parseText base source text) := by
  refine (a.follows_loadText [] base source text).bind fun draft => ?_
  exact Follows.bind (.ofExcept _) fun api => a.follows_resolve base source api

end Whole

end Access

/-! ## Requests -/

/-- Whether all requests of a reading have the given settings, are made for the addresses that are
asked for and come to an end with the first one that fails, which then is how the reading ends. -/
structure World.Governs {α : Type} (w : World) (settings : FetchSettings) (step : Load α) :
    Prop where
  settings : ∀ q ∈ step.record.requests, q.settings = settings
  asked : step.record.requests.map Request.location =
    step.record.locations.filter Location.isUrl
  last : ∀ before q after f, step.record.requests = before ++ q :: after →
    w.request q.location = .error f → after = [] ∧ ∃ e, step.outcome = .error e

namespace Access

variable {a : Access} {α : Type} {step : Load α}

/-- A reading asks for locations of which all but the last can be read, and the last one too unless
the reading fails. -/
theorem Follows.record (h : a.Follows id step) : ∃ ls, step.record.locations = ls ∧
    step.record.requests = ls.flatMap a.requestFor ∧ (∀ l ∈ ls.dropLast, a.Has l) ∧
    ((∃ x, step.outcome = .ok x) → ∀ l ∈ ls, a.Has l) := by
  -- the record of a step is its journal when it starts from an empty one
  cases hrun : step .empty with
  | ok x j =>
    obtain ⟨ls, hls, hread⟩ := h.ok hrun
    have hrecord : step.record = j := by rw [Load.record, hrun]
    refine ⟨ls, ?_, ?_, fun l hl => hread l (List.dropLast_subset _ hl), fun _ => hread⟩
    · rw [hrecord]
      exact hls.locations
    · rw [hrecord]
      exact hls.requests
  | error e j =>
    obtain ⟨ls, hls, hread⟩ := h.error hrun
    have hrecord : step.record = j := by rw [Load.record, hrun]
    refine ⟨ls, ?_, ?_, hread, fun ⟨x, hx⟩ => ?_⟩
    · rw [hrecord]
      exact hls.locations
    · rw [hrecord]
      exact hls.requests
    · rw [Load.outcome, hrun] at hx
      cases hx

/-- The requests go to those locations that are in the network, in the same order. -/
theorem locations_flatMap_requestFor (ls : List String) :
    (ls.flatMap a.requestFor).map Request.location = ls.filter Location.isUrl := by
  induction ls with
  | nil => rfl
  | cons l ls ih =>
    rw [List.flatMap_cons, List.map_append, ih, requestFor]
    split
    · rename_i hurl
      rw [List.filter_cons_of_pos hurl]
      rfl
    · rename_i hurl
      rw [List.filter_cons_of_neg hurl]
      rfl

/-- Every request is made with the settings at hand, for a location that was asked for. -/
theorem settings_of_mem_requestFor {ls : List String} {q : Request}
    (h : q ∈ ls.flatMap a.requestFor) : q.settings = a.settings ∧ q.location ∈ ls := by
  obtain ⟨l, hl, hq⟩ := List.mem_flatMap.mp h
  rw [requestFor] at hq
  split at hq
  · obtain rfl := List.mem_singleton.mp hq
    exact ⟨rfl, hl⟩
  · cases hq

/-- The requests before the last one are among those for the locations before the last one. -/
theorem mem_of_mem_dropLast_requests {ls : List String} {q : Request}
    (h : q ∈ (ls.flatMap a.requestFor).dropLast) : q ∈ ls.dropLast.flatMap a.requestFor := by
  rcases List.eq_nil_or_concat ls with rfl | ⟨first, l, rfl⟩
  · exact h
  · rw [List.concat_eq_append, List.flatMap_append, List.flatMap_singleton] at h
    rw [List.concat_eq_append, List.dropLast_concat]
    -- the last location has at most one request
    rw [requestFor] at h
    split at h
    · rwa [List.dropLast_concat] at h
    · rw [List.append_nil] at h
      exact List.dropLast_subset _ h

end Access

theorem World.governs_of_follows {α : Type} {w : World} {settings : FetchSettings} {step : Load α}
    (h : (⟨w.store, settings⟩ : Access).Follows id step) : w.Governs settings step := by
  obtain ⟨ls, hlocations, hrequests, hread, hok⟩ := h.record
  -- no bytes are found where a request failed
  have hfails : ∀ q ∈ step.record.requests, ∀ f, w.request q.location = .error f →
      ¬(⟨w.store, settings⟩ : Access).Has q.location := by
    rintro q hq f hf ⟨bs, hbs⟩
    have hurl : Location.isUrl q.location = true := by
      have hmem : q.location ∈ step.record.requests.map Request.location := List.mem_map_of_mem hq
      rw [hrequests, Access.locations_flatMap_requestFor] at hmem
      exact (List.mem_filter.mp hmem).2
    have hrequest : w.read q.location = .ok bs := hbs
    rw [World.read, if_pos hurl, hf] at hrequest
    cases hrequest
  refine ⟨fun q hq => ?_, ?_, fun before q after f heq hf => ?_⟩
  · rw [hrequests] at hq
    exact (Access.settings_of_mem_requestFor hq).1
  · rw [hrequests, hlocations, Access.locations_flatMap_requestFor]
  · have hq : q ∈ step.record.requests := by
      rw [heq]
      exact List.mem_append_right _ (List.mem_cons_self ..)
    have hnone := hfails q hq f hf
    constructor
    · -- only the last request may be for what is not there
      by_contra hafter
      have hbefore : q ∈ (ls.flatMap (⟨w.store, settings⟩ : Access).requestFor).dropLast := by
        rw [← hrequests, heq, List.dropLast_append_of_ne_nil (List.cons_ne_nil _ _),
          List.dropLast_cons_of_ne_nil hafter]
        exact List.mem_append_right _ (List.mem_cons_self ..)
      have hmem := Access.mem_of_mem_dropLast_requests hbefore
      exact hnone (hread _ (Access.settings_of_mem_requestFor hmem).2)
    · cases houtcome : step.outcome with
      | ok x =>
        rw [hrequests] at hq
        exact absurd (hok ⟨x, houtcome⟩ _ (Access.settings_of_mem_requestFor hq).2) hnone
      | error e => exact ⟨e, rfl⟩

/-- **One set of settings governs a whole reading.** However a document is read, from a location or
from a text, and however the reading ends: every request, for the document itself, for what is
included at any depth and for libraries at any depth, is made with the settings that were given; it
is made for each address that is asked for; and when one fails, it is the last one and the reading
fails too. -/
theorem requests_of_parse (w : World) (settings : FetchSettings) :
    (∀ source, w.Governs settings ((⟨w.store, settings⟩ : Access).parse source)) ∧
    ∀ base source text,
      w.Governs settings ((⟨w.store, settings⟩ : Access).parseText base source text) :=
  ⟨fun source => World.governs_of_follows (Access.follows_parse _ source),
    fun base source text => World.governs_of_follows (Access.follows_parseText _ base source text)⟩

/-- The locations of the requests, when what is included second cannot be had. -/
example :
    let reply (s : String) : Answer := .reply 200 (Text.Utf8.encode s)
    let w : World := ⟨⟨[], []⟩, [
      ("http://docs/api.raml", reply "#%RAML 1.0\ntitle: !include one\nversion: !include two\n"),
      ("http://docs/one", reply "Shop")]⟩
    let run := (⟨w.store, .usual⟩ : Access).parse "http://docs/api.raml"
    run.record.requests.map Request.location =
      ["http://docs/api.raml", "http://docs/one", "http://docs/two"] := by
  decide +kernel

end Raml
