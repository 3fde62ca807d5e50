import Raml.Proofs.Decimal.Packed
import Raml.Proofs.Document.Filled
import Raml.Value.Portable

/-!
# Doubles that are numbers

A double is a number if it has parts; the others are the infinite ones and the one that is no
number. `Value.IsFinite` says that all doubles in a value are numbers, wherever they stand but in a
key. In the form for other programs they are (`Value.isFinite_portable`).
-/

namespace Raml

namespace Decimal

/-- A double is finite if it has parts. -/
theorem isFinite_iff {x : Float} : x.isFinite = true ↔ ∃ b, classify x = .finite b := by
  have hx : x.isFinite = (unpackedOf (classify x)).isFinite :=
    congrArg Float.Model.UnpackedFloat.isFinite (unpack_toModel x)
  rw [hx]
  cases classify x with
  | notNumber => exact iff_of_false Bool.false_ne_true nofun
  | infinite negative => exact iff_of_false Bool.false_ne_true nofun
  | finite b =>
    refine iff_of_true ?_ ⟨b, rfl⟩
    rw [unpackedOf]
    split <;> rfl

end Decimal

namespace Value

/-- Whether a double stands in a value. What stands in a set is only ever shown as text, and so is
a key. -/
inductive Holds (x : Float) : Value → Prop where
  | double : Holds x (.float x)
  | item {v : Value} {items : List Value} (hmem : v ∈ items) (h : Holds x v) : Holds x (.list items)
  | first {v w : Value} (h : Holds x v) : Holds x (.pair v w)
  | second {v w : Value} (h : Holds x w) : Holds x (.pair v w)
  | entry {e : Value × Value} {entries : List (Value × Value)} (hmem : e ∈ entries)
      (h : Holds x e.2) : Holds x (.map entries)

/-- Whether all doubles in a value are finite. -/
def IsFinite (v : Value) : Prop := ∀ x, v.Holds x → x.isFinite = true

variable {v w : Value} {items : List Value} {entries : List (Value × Value)}

@[simp]
theorem isFinite_null : null.IsFinite := nofun

@[simp]
theorem isFinite_bool (b : Bool) : (bool b).IsFinite := nofun

@[simp]
theorem isFinite_int (n : Int) : (int n).IsFinite := nofun

@[simp]
theorem isFinite_str (s : String) : (str s).IsFinite := nofun

@[simp]
theorem isFinite_bytes (bs : List UInt8) : (bytes bs).IsFinite := nofun

@[simp]
theorem isFinite_moment (m : Moment) : (moment m).IsFinite := nofun

@[simp]
theorem isFinite_set : (set items).IsFinite := nofun

@[simp]
theorem isFinite_float {x : Float} : (float x).IsFinite ↔ x.isFinite = true := by
  constructor
  · exact fun h => h x .double
  · intro h y hy
    cases hy
    exact h

@[simp]
theorem isFinite_list : (list items).IsFinite ↔ ∀ v ∈ items, v.IsFinite := by
  constructor
  · exact fun h v hv x hx => h x (.item hv hx)
  · intro h x hx
    cases hx with
    | item hv hx => exact h _ hv x hx

@[simp]
theorem isFinite_pair : (pair v w).IsFinite ↔ v.IsFinite ∧ w.IsFinite := by
  constructor
  · exact fun h => ⟨fun x hx => h x (.first hx), fun x hx => h x (.second hx)⟩
  · intro h x hx
    cases hx with
    | first hx => exact h.1 x hx
    | second hx => exact h.2 x hx

@[simp]
theorem isFinite_map : (map entries).IsFinite ↔ ∀ e ∈ entries, e.2.IsFinite := by
  constructor
  · exact fun h e he x hx => h x (.entry he hx)
  · intro h x hx
    cases hx with
    | entry he hx => exact h _ he x hx

mutual

/-- In the form for other programs all doubles are finite. -/
theorem isFinite_portable : ∀ v : Value, v.portable.IsFinite
  | .float x => by
    unfold portable
    split
    · rename_i hx
      exact isFinite_float.mpr hx
    · exact isFinite_null
  | .bytes bs => by
    unfold portable
    split
    · exact isFinite_str _
    · exact isFinite_bytes bs
  | .moment m => by
    unfold portable
    exact isFinite_str _
  | .list items => by
    unfold portable
    exact isFinite_list.mpr (isFinite_portableItems items)
  | .pair v w => by
    unfold portable
    simp [isFinite_portable v, isFinite_portable w]
  | .set items => by
    unfold portable
    exact isFinite_list.mpr (isFinite_portableItems items)
  | .map entries => by
    unfold portable
    refine isFinite_map.mpr fun e he => ?_
    exact (forall_mem_mapOf (K := fun _ => True)
      (fun e he => ⟨trivial, isFinite_portableEntries entries e he⟩) e he).2
  | .null | .bool _ | .int _ | .str _ => by
    unfold portable
    simp

theorem isFinite_portableItems : ∀ items : List Value, ∀ v ∈ portableItems items, v.IsFinite
  | [] => List.forall_mem_nil _
  | v :: rest => List.forall_mem_cons.mpr ⟨isFinite_portable v, isFinite_portableItems rest⟩

theorem isFinite_portableEntries :
    ∀ entries : List (Value × Value), ∀ e ∈ portableEntries entries, e.2.IsFinite
  | [] => List.forall_mem_nil _
  | (_, v) :: rest => List.forall_mem_cons.mpr ⟨isFinite_portable v, isFinite_portableEntries rest⟩

end

end Value
end Raml
