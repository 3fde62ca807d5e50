import Raml.Proofs.Merge.Places
import Raml.Proofs.Merge.Provided

/-!
# The turns of the entries of a template

When a mapping of a template is merged into that of a child, its entries take turns, and what one
entry finds is what those before it have left. `Turn` says what happens in one turn, by the form
of the key; `Turns` strings them together, and a merge succeeds exactly along such a run
(`table_eq_ok_iff`).

Two things hold of every run. Only entries that are not optional add a key, each after all that are
there already, so that the first of several with one key decides where it stands
(`Turns.names_eq`). And whatever no entry goes to stays as it was (`Turns.get?_eq`).
-/

namespace Raml.Merge

variable {α : Type} {merge : α → α → Except Error α} {create : String → α}

/-! ## Keys -/

theorem dropLast_append (s tail : String) :
    Text.dropLast tail.toList.length (s ++ tail) = s := by
  unfold Text.dropLast
  rw [String.toList_append, List.length_append, Nat.add_sub_cancel_right, List.take_left,
    String.ofList_toList]

/-- A mark is escaped if a backslash stands before it. -/
theorem endsWith_escaped (base : String) :
    Text.endsWith "\\?" (base ++ "?") = Text.endsWith "\\" base := by
  have hmark : "\\?".toList = "\\".toList ++ "?".toList := rfl
  rw [Bool.eq_iff_iff, Text.endsWith, Text.endsWith, List.isSuffixOf_iff_suffix,
    List.isSuffixOf_iff_suffix, String.toList_append, hmark,
    List.suffix_append_inj_of_length_eq rfl]
  exact and_iff_left rfl

/-- A key ends in an escaped mark, or in one that makes it optional, or in none. -/
theorem key_cases (key : String) : (∃ base, key = base ++ "\\?") ∨
    (∃ base, Text.endsWith "\\" base = false ∧ key = base ++ "?") ∨
    Text.endsWith "?" key = false := by
  by_cases hmark : Text.endsWith "?" key = true
  · obtain ⟨front, rfl, -⟩ := eq_append_of_endsWith hmark
    by_cases hescaped : Text.endsWith "\\?" (String.ofList (front ++ ['?'])) = true
    · obtain ⟨base, hbase, -⟩ := eq_append_of_endsWith hescaped
      exact .inl ⟨String.ofList base, hbase.trans String.ofList_append⟩
    · have hkey : String.ofList (front ++ ['?']) = String.ofList front ++ "?" :=
        String.ofList_append
      refine .inr (.inl ⟨String.ofList front, ?_, hkey⟩)
      rw [← endsWith_escaped, ← hkey]
      exact Bool.eq_false_of_not_eq_true hescaped
  · exact .inr (.inr (Bool.eq_false_of_not_eq_true hmark))

/-- An escaped mark belongs to the name of a mandatory entry. -/
theorem mandatory?_escaped (base : String) :
    Template.mandatory? (base ++ "\\?") = some (base ++ "?") := by
  unfold Template.mandatory?
  rw [if_pos (endsWith_append base "\\?")]
  exact congrArg (fun s => some (s ++ "?")) (dropLast_append base "\\?")

theorem mandatory?_of_unmarked {key : String} (h : Text.endsWith "?" key = false) :
    Template.mandatory? key = some key := by
  have hescaped : Text.endsWith "\\?" key = false := by
    rw [← Bool.not_eq_true] at h ⊢
    exact fun hends => h (endsWith_mark_of_escaped hends)
  unfold Template.mandatory?
  rw [hescaped, h, if_neg Bool.false_ne_true, if_neg Bool.false_ne_true]

section Optional

variable {base : String} (hbase : Text.endsWith "\\" base = false)
include hbase

theorem mandatory?_optional : Template.mandatory? (base ++ "?") = none := by
  unfold Template.mandatory?
  rw [endsWith_escaped, hbase, if_neg Bool.false_ne_true, if_pos (endsWith_append base "?")]

/-- An optional entry goes where one with its name is, with the mark or without. -/
theorem targetOf_optional (t : Table α) : targetOf t (base ++ "?") =
    if t.has base then some base else if t.has (base ++ "?") then some (base ++ "?") else none := by
  have hdrop : Text.dropLast 1 (base ++ "?") = base := dropLast_append base "?"
  unfold targetOf
  rw [endsWith_escaped, hbase, if_neg Bool.false_ne_true, if_pos (endsWith_append base "?"), hdrop]

end Optional

/-! ## One turn -/

/-- What the turn of an entry makes of a mapping: the place that the entry goes to, if it goes
anywhere, and the mapping afterwards. -/
inductive Turn (merge : α → α → Except Error α) (create : String → α) (parent : α)
    (t : Table α) : String → Option String → Table α → Prop
  /-- A key without a mark names its place. What stands there is merged, or else a new entry. -/
  | plain {key : String} {new : α} (hkey : Text.endsWith "?" key = false)
      (hnew : merge ((t.get? key).getD (create key)) parent = .ok new) :
      Turn merge create parent t key (some key) (t.set key new)
  /-- An escaped mark belongs to the name of the place. -/
  | escaped {base : String} {new : α}
      (hnew : merge ((t.get? (base ++ "?")).getD (create (base ++ "?"))) parent = .ok new) :
      Turn merge create parent t (base ++ "\\?") (some (base ++ "?")) (t.set (base ++ "?") new)
  /-- An optional entry is merged into the one that has its name. -/
  | named {base : String} {old new : α} (hbase : Text.endsWith "\\" base = false)
      (hold : t.get? base = some old) (hnew : merge old parent = .ok new) :
      Turn merge create parent t (base ++ "?") (some base) (t.set base new)
  /-- Without one, it is merged into the entry that is optional itself. -/
  | marked {base : String} {old new : α} (hbase : Text.endsWith "\\" base = false)
      (hnone : t.get? base = none) (hold : t.get? (base ++ "?") = some old)
      (hnew : merge old parent = .ok new) :
      Turn merge create parent t (base ++ "?") (some (base ++ "?")) (t.set (base ++ "?") new)
  /-- Without either, it is passed over. -/
  | passed {base : String} (hbase : Text.endsWith "\\" base = false)
      (hnone : t.get? base = none) (hnone' : t.get? (base ++ "?") = none) :
      Turn merge create parent t (base ++ "?") none t

section Turn

variable {parent : α} {t t' : Table α} {key : String} {place : Option String}

theorem Turn.targetOf_eq (h : Turn merge create parent t key place t') :
    targetOf t key = place := by
  cases h with
  | plain hkey _ => exact targetOf_of_unmarked hkey
  | escaped _ => exact targetOf_of_mandatory (mandatory?_escaped _)
  | named hbase hold _ =>
    rw [targetOf_optional hbase, if_pos (Table.has_iff_exists.mpr ⟨_, hold⟩)]
  | marked hbase hnone hold _ =>
    rw [Table.get?_eq_none_iff] at hnone
    rw [targetOf_optional hbase, if_neg hnone, if_pos (Table.has_iff_exists.mpr ⟨_, hold⟩)]
  | passed hbase hnone hnone' =>
    rw [Table.get?_eq_none_iff] at hnone hnone'
    rw [targetOf_optional hbase, if_neg hnone, if_neg hnone']

/-- An entry that goes nowhere changes nothing. -/
theorem turn_none_iff :
    Turn merge create parent t key none t' ↔ targetOf t key = none ∧ t' = t := by
  constructor
  · intro h
    refine ⟨h.targetOf_eq, ?_⟩
    cases h
    rfl
  · rintro ⟨htarget, rfl⟩
    -- a key without a mark, or with an escaped one, always has a place
    rcases key_cases key with ⟨base, rfl⟩ | ⟨base, hbase, rfl⟩ | hkey
    · rw [targetOf_of_mandatory (mandatory?_escaped base)] at htarget
      cases htarget
    · rw [targetOf_optional hbase] at htarget
      split at htarget
      · cases htarget
      · rename_i hnone
        split at htarget
        · cases htarget
        · rename_i hnone'
          exact .passed hbase (Table.get?_of_not_has hnone) (Table.get?_of_not_has hnone')
    · rw [targetOf_of_unmarked hkey] at htarget
      cases htarget

/-- An entry that goes to a place is merged into what stands there, or into a new entry. -/
theorem turn_some_iff {place : String} :
    Turn merge create parent t key (some place) t' ↔ targetOf t key = some place ∧
      ∃ new, merge ((t.get? place).getD (create place)) parent = .ok new ∧
        t' = t.set place new := by
  constructor
  · intro h
    refine ⟨h.targetOf_eq, ?_⟩
    cases h with
    | plain _ hnew | escaped hnew => exact ⟨_, hnew, rfl⟩
    | named _ hold hnew | marked _ _ hold hnew =>
      refine ⟨_, ?_, rfl⟩
      rw [hold]
      exact hnew
  · rintro ⟨htarget, new, hnew, rfl⟩
    -- a key is escaped, optional or plain
    rcases key_cases key with ⟨base, rfl⟩ | ⟨base, hbase, rfl⟩ | hkey
    · rw [targetOf_of_mandatory (mandatory?_escaped base)] at htarget
      obtain rfl := Option.some.inj htarget
      exact .escaped hnew
    · -- an optional entry goes only to what is there
      rw [targetOf_optional hbase] at htarget
      split at htarget
      · rename_i hhas
        obtain rfl := Option.some.inj htarget
        obtain ⟨old, hold⟩ := Table.has_iff_exists.mp hhas
        rw [hold] at hnew
        exact .named hbase hold hnew
      · rename_i hnone
        split at htarget
        · rename_i hhas
          obtain rfl := Option.some.inj htarget
          obtain ⟨old, hold⟩ := Table.has_iff_exists.mp hhas
          rw [hold] at hnew
          exact .marked hbase (Table.get?_of_not_has hnone) hold hnew
        · cases htarget
    · rw [targetOf_of_unmarked hkey] at htarget
      obtain rfl := Option.some.inj htarget
      exact .plain hkey hnew

/-- The keys after a turn: only an entry that is not optional adds one. -/
theorem Turn.names_eq (h : Turn merge create parent t key place t') :
    t'.names = t.names ++ ((Template.mandatory? key).toList.filter (· ∉ t.names)) := by
  cases h with
  | plain hkey _ => rw [mandatory?_of_unmarked hkey, Table.names_set_append]; rfl
  | escaped _ => rw [mandatory?_escaped, Table.names_set_append]; rfl
  | named hbase hold _ => rw [mandatory?_optional hbase, Table.names_set_of_get? hold]; simp
  | marked hbase _ hold _ => rw [mandatory?_optional hbase, Table.names_set_of_get? hold]; simp
  | passed hbase _ _ => rw [mandatory?_optional hbase]; simp

/-- A turn leaves all entries alone but the one where its key goes. -/
theorem Turn.get?_eq {other : String} (h : Turn merge create parent t key place t')
    (hother : place ≠ some other) : t'.get? other = t.get? other := by
  cases place with
  | none => rw [(turn_none_iff.mp h).2]
  | some k =>
    obtain ⟨-, new, -, rfl⟩ := turn_some_iff.mp h
    exact Table.get?_set_of_ne (fun heq => hother (congrArg some heq.symm)) new t

end Turn

/-! ## All turns -/

/-- The turns of the entries of a template in order: the key of each as it is filled in, and the
place that it goes to. -/
inductive Turns (app : Application) (merge : α → α → Except Error α) (create : String → α) :
    Table α → Table α → List (String × Option String) → Table α → Prop
  | nil {t : Table α} : Turns app merge create t [] [] t
  | cons {t t' r rest : Table α} {raw key : String} {parent : α} {place : Option String}
      {turns : List (String × Option String)}
      (hkey : Template.filledKey app.dictionary raw = .ok key)
      (hturn : Turn merge create parent t key place t')
      (hrest : Turns app merge create t' rest turns r) :
      Turns app merge create t ((raw, parent) :: rest) ((key, place) :: turns) r

section Run

variable {app : Application} {c p r : Table α} {turns : List (String × Option String)}

theorem filledKey_eq_ok {raw key : String} :
    Template.filledKey app.dictionary raw = .ok key ↔ app.name raw = .ok key := by
  refine ⟨fun h => ?_, filledKey_of_name⟩
  obtain ⟨s, hs, rfl⟩ := map_eq_ok.mp h
  exact name_eq_ok.mpr ⟨s, hs, rfl⟩

/-- A merge succeeds along the turns of its entries, and not otherwise. -/
theorem table_eq_ok_iff :
    table app merge create c p = .ok r ↔ ∃ turns, Turns app merge create c p turns r := by
  constructor
  · intro h
    -- either way along the entries of the template, one turn for each
    induction p generalizing c with
    | nil =>
      obtain rfl := Except.ok.inj h
      exact ⟨[], .nil⟩
    | cons e p ih =>
      obtain ⟨raw, parent⟩ := e
      obtain ⟨key, hkey, ⟨hnone, h⟩ | ⟨place, new, hplace, hnew, h⟩⟩ := table_cons_eq_ok.mp h
      · obtain ⟨turns, hturns⟩ := ih h
        exact ⟨_, .cons (filledKey_eq_ok.mpr hkey) (turn_none_iff.mpr ⟨hnone, rfl⟩) hturns⟩
      · obtain ⟨turns, hturns⟩ := ih h
        exact ⟨_, .cons (filledKey_eq_ok.mpr hkey)
          (turn_some_iff.mpr ⟨hplace, new, hnew, rfl⟩) hturns⟩
  · rintro ⟨turns, h⟩
    induction h with
    | nil => rfl
    | @cons t t' r rest raw key parent place turns hkey hturn _ ih =>
      refine table_cons_eq_ok.mpr ⟨key, filledKey_eq_ok.mp hkey, ?_⟩
      cases place with
      | none =>
        obtain ⟨hnone, rfl⟩ := turn_none_iff.mp hturn
        exact .inl ⟨hnone, ih⟩
      | some place =>
        obtain ⟨hplace, new, hnew, rfl⟩ := turn_some_iff.mp hturn
        exact .inr ⟨place, new, hplace, hnew, ih⟩

/-- The keys after all turns: those of the child, and after them the others that are not optional,
each where it first came. -/
theorem Turns.names_eq (h : Turns app merge create c p turns r) :
    r.names = union c.names (turns.filterMap fun turn => Template.mandatory? turn.1) := by
  induction h with
  | nil => exact (union_nil _).symm
  | @cons t t' r rest raw key parent place turns _ hturn _ ih =>
    rw [ih, hturn.names_eq, List.filterMap_cons]
    cases Template.mandatory? key with
    | none => simp
    | some k =>
      by_cases hk : k ∈ t.names
      · simp [union_cons_of_mem hk, hk]
      · -- the key is new, and from now on it is there
        simp [union_cons_of_notMem hk, hk]

/-- What no entry goes to stays as it was. -/
theorem Turns.get?_eq {key : String} (h : Turns app merge create c p turns r)
    (hkey : ∀ turn ∈ turns, turn.2 ≠ some key) : r.get? key = c.get? key := by
  induction h with
  | nil => rfl
  | cons _ hturn _ ih =>
    rw [List.forall_mem_cons] at hkey
    rw [ih hkey.2, hturn.get?_eq hkey.1]

/-- **A merge adds exactly the keys that are not optional.** It succeeds with a mapping if and only
if the entries of the template take their turns and leave it. Then the keys of the mapping are
those of the child, in their order, and after them the keys of the template that are not optional
and not there yet, in its order and each of them once; and every entry of the child that no entry
of the template goes to is as it was. -/
theorem table_adds_mandatory :
    table app merge create c p = .ok r ↔ ∃ turns, Turns app merge create c p turns r ∧
      r.names = c.names ++ ((turns.filterMap fun turn => Template.mandatory? turn.1).filter
        (· ∉ c.names)).eraseDups ∧
      ∀ key, (∀ turn ∈ turns, turn.2 ≠ some key) → r.get? key = c.get? key := by
  rw [table_eq_ok_iff]
  constructor
  · rintro ⟨turns, h⟩
    exact ⟨turns, h, h.names_eq, fun key => h.get?_eq⟩
  · rintro ⟨turns, h, -⟩
    exact ⟨turns, h⟩

end Run

/-- Entries that are merged by writing one text after the other show who went where. -/
example : (table .empty (fun old new => .ok (old ++ new)) (fun _ => "")
    [("size", "a"), ("sort?", "b"), ("X", "c")]
    [("size?", "1"), ("sort?", "2"), ("page?", "3"), ("X\\?", "4"), ("page", "5"), ("X?", "6"),
      ("page?", "7")]).toOption =
    some [("size", "a1"), ("sort?", "b2"), ("X", "c6"), ("X?", "4"), ("page", "57")] := by
  decide +kernel

end Raml.Merge
