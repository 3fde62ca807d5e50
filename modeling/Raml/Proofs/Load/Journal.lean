import Raml.Load.Document

/-!
# What reading puts on record

No step of reading documents looks at the journal: it adds a record of its own to the end of it,
and what it gives back does not depend on what stood there before. `Load.Records` says so of one
step, and `records_loadDocument` of the reading of a whole document with all its inclusions. So a
document has one outcome and one record, however much was read before it.
-/

namespace Raml

/-! ## Journals one after another -/

/-- The journal with another one after it. -/
def Journal.append (j k : Journal) : Journal :=
  ⟨j.locations ++ k.locations, j.requests ++ k.requests, j.warnings ++ k.warnings⟩

theorem Journal.append_empty (j : Journal) : j.append .empty = j := by
  simp [append, empty]

theorem Journal.empty_append (j : Journal) : Journal.empty.append j = j := by
  simp [append, empty]

/-- Journals are kept one after the other. -/
theorem Journal.append_assoc (i j k : Journal) :
    (i.append j).append k = i.append (j.append k) := by
  simp [append, List.append_assoc]

namespace Load

variable {α β : Type}

/-- The step that ends in a given way and adds a given record. -/
def recorded (outcome : Except Error α) (record : Journal) : Load α := fun j =>
  match outcome with
  | .ok x => .ok x (j.append record)
  | .error e => .error e (j.append record)

/-- The step adds a record of its own, and does not look at the journal. -/
def Records (step : Load α) : Prop := ∃ outcome record, step = recorded outcome record

/-- How a step ends. -/
def outcome (step : Load α) : Except Error α :=
  match step .empty with
  | .ok x _ => .ok x
  | .error e _ => .error e

/-- What a step puts on record. -/
def record (step : Load α) : Journal :=
  match step .empty with
  | .ok _ j => j
  | .error _ j => j

theorem outcome_recorded {o : Except Error α} {r : Journal} : (recorded o r).outcome = o := by
  cases o <;> rfl

theorem record_recorded {o : Except Error α} {r : Journal} : (recorded o r).record = r := by
  cases o <;> exact Journal.empty_append r

/-- A step that adds a record is known from its outcome and that record. -/
theorem Records.eq {step : Load α} (h : Records step) :
    step = recorded step.outcome step.record := by
  obtain ⟨o, r, rfl⟩ := h
  rw [outcome_recorded, record_recorded]

theorem run_of_outcome_error {step : Load α} {e : Error} (h : step.outcome = .error e) :
    ∃ j, step .empty = .error e j := by
  rw [outcome] at h
  cases hrun : step .empty with
  | ok a j =>
    rw [hrun] at h
    cases h
  | error e' j =>
    rw [hrun] at h
    exact ⟨j, by rw [Except.error.inj h]⟩

/-! ## The steps of reading -/

theorem records_pure (x : α) : Records (pure x : Load α) := by
  refine ⟨.ok x, .empty, ?_⟩
  funext j
  rw [recorded, Journal.append_empty]
  rfl

theorem records_throw (e : Error) : Records (throw e : Load α) := by
  refine ⟨.error e, .empty, ?_⟩
  funext j
  rw [recorded, Journal.append_empty]
  rfl

theorem records_ofExcept (x : Except Error α) : Records (ofExcept x : Load α) := by
  cases x with
  | ok x => exact records_pure x
  | error e => exact records_throw e

theorem records_modify {f : Journal → Journal} {r : Journal} (h : ∀ j, f j = j.append r) :
    Records (modify f : Load PUnit) := by
  refine ⟨.ok ⟨⟩, r, ?_⟩
  funext j
  rw [recorded, ← h j]
  rfl

/-- A sequence records what its steps do, one after the other. -/
theorem Records.bind {step : Load α} {next : α → Load β} (h : Records step)
    (hnext : ∀ x, Records (next x)) : Records (step >>= next) := by
  obtain ⟨o, r, rfl⟩ := h
  cases o with
  | error e => exact ⟨.error e, r, rfl⟩
  | ok x =>
    -- the second record comes after the first, whatever stands before both
    obtain ⟨o', r', hx⟩ := hnext x
    refine ⟨o', r.append r', ?_⟩
    funext j
    have hstep : (recorded (.ok x) r >>= next) j = next x (j.append r) := rfl
    rw [hstep, hx]
    cases o' <;> rw [recorded, recorded, Journal.append_assoc]

theorem Records.map {step : Load α} (f : α → β) (h : Records step) :
    Records (do return f (← step)) :=
  h.bind fun _ => records_pure _

end Load

open Load

namespace Access

variable (a : Access)

theorem records_note (location : String) : Records (a.note location) :=
  records_modify (r := ⟨[location], a.requestFor location, []⟩) fun j => by
    simp [Journal.append]

theorem records_bytes (reference location : String) : Records (a.bytes reference location) := by
  refine (a.records_note location).bind fun _ => ?_
  split
  · exact records_pure _
  · exact records_throw _
  · exact records_throw _

theorem records_text (location : String) : Records (a.text location) := by
  refine (a.records_bytes location location).bind fun bs => ?_
  split
  · exact records_pure _
  · exact records_throw _

end Access

namespace Inclusion

variable (a : Access)

theorem records_content (reference location : String) :
    Records (content a reference location) := by
  refine (a.records_bytes reference location).bind fun bs => ?_
  split
  · exact records_pure _
  · let words := "Ignoring " ++ reference ++ ": content is not valid UTF-8"
    refine (records_modify (r := ⟨[], [], [words]⟩) fun j => ?_).bind fun _ => records_pure _
    simp [Journal.append, words]

theorem records_expandLine {expand : List String → String → String → Load (List String)}
    (h : ∀ chain base text, Records (expand chain base text)) (chain : List String)
    (base line : String) : Records (expandLine a expand chain base line) := by
  rw [expandLine]
  split
  · exact records_pure _
  · rename_i l _
    refine (records_ofExcept _).bind fun location => ?_
    have hrest : Records (do
        let text ← content a l.reference location
        if text.isEmpty || l.isOpaque then return l.spliced (Text.lines text)
        let folder ← ofExcept (Location.folder location)
        return l.spliced (← expand (chain ++ [location]) folder text)) := by
      refine (records_content a l.reference location).bind fun text => ?_
      split
      · exact records_pure _
      · exact (records_ofExcept _).bind fun folder => (h _ _ _).map _
    -- a location that is being expanded ends the line before the rest of it is reached
    split
    · exact (records_throw _).bind fun _ => hrest
    · exact hrest

theorem records_expandLines {expandLine : String → Load (List String)}
    (h : ∀ line, Records (expandLine line)) :
    ∀ lines : List String, Records (expandLines expandLine lines)
  | [] => records_pure _
  | line :: rest => (h line).bind fun _ => (records_expandLines h rest).map _

/-- Expanding records the same, whatever was recorded before. -/
theorem records_expand : ∀ (depth : Nat) (chain : List String) (base text : String),
    Records (expand a depth chain base text)
  | 0, _, _, _ => records_throw _
  | depth + 1, chain, base, _ =>
      records_expandLines (records_expandLine a (records_expand depth) chain base) _

end Inclusion

namespace Access

variable (a : Access)

/-- So does loading a text. -/
theorem records_loadText (chain : List String) (base source text : String) :
    Records (a.loadText chain base source text) := by
  refine (records_ofExcept _).bind fun header => ?_
  refine ((Inclusion.records_expand a _ chain base header.2).map _).bind fun expanded => ?_
  exact (records_ofExcept _).map _

/-- **A document has one outcome and one record.** What is on record before it is read changes
neither. -/
theorem records_loadDocument (chain : List String) (location : String) :
    Records (a.loadDocument chain location) := by
  refine (a.records_text location).bind fun text => ?_
  exact (records_ofExcept _).bind fun folder => a.records_loadText _ _ _ _

end Access
end Raml
