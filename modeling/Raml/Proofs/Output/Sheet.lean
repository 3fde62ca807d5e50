import Raml.Output.Sheet
import Raml.Proofs.Text.Lines
import Raml.Session.Basic

/-!
# Sheets read back

A sheet is written as lines of cells, with a tab between two cells and a newline after each line.
Whoever cuts the text at the newlines, and each line at the tabs, finds the sheet again if none of
its cells holds a tab or a newline, and otherwise something else (`Sheet.cellsOf_text_iff`): what is
found never holds either. The only other thing that could be lost is a row without cells, which
looks like one with an empty cell, so every row has to have some.
-/

namespace Raml

/-- Whether a text can stand in a cell: it holds nothing that ends a cell or a line. -/
def IsCell (s : String) : Prop := '\t' ∉ s.toList ∧ '\n' ∉ s.toList

instance (s : String) : Decidable (IsCell s) := inferInstanceAs (Decidable (_ ∧ _))

theorem isCell_append {s t : String} : IsCell (s ++ t) ↔ IsCell s ∧ IsCell t := by
  simp only [IsCell, String.toList_append, List.mem_append, not_or]
  exact and_and_and_comm

/-- Whether each of several texts can stand in a cell. -/
def AreCells (ts : List String) : Prop := ∀ t ∈ ts, IsCell t

instance (ts : List String) : Decidable (AreCells ts) :=
  inferInstanceAs (Decidable (∀ t ∈ ts, IsCell t))

section AreCells

variable {α : Type} {t : String} {ts us : List String}

@[simp]
theorem areCells_nil : AreCells [] := List.forall_mem_nil _

@[simp]
theorem areCells_cons : AreCells (t :: ts) ↔ IsCell t ∧ AreCells ts := List.forall_mem_cons

@[simp]
theorem areCells_append : AreCells (ts ++ us) ↔ AreCells ts ∧ AreCells us :=
  List.forall_mem_append

/-- Cells that are gathered from several elements are cells if those of each element are. -/
theorem areCells_flatMap {f : α → List String} {as : List α} :
    AreCells (as.flatMap f) ↔ ∀ a ∈ as, AreCells (f a) := by
  simp only [AreCells, List.mem_flatMap]
  grind

/-- A character that does not stand between the items of a sequence stands in one of them. -/
theorem notMem_intercalate {c : Char} {sep : String} (hsep : c ∉ sep.toList) :
    c ∉ (String.intercalate sep ts).toList ↔ ∀ t ∈ ts, c ∉ t.toList := by
  induction ts with
  | nil =>
    rw [String.intercalate_nil]
    exact iff_of_true List.not_mem_nil (List.forall_mem_nil _)
  | cons t ts ih =>
    cases ts with
    | nil => simp
    | cons u us =>
      rw [String.intercalate_cons_cons, String.toList_append, String.toList_append,
        List.mem_append, List.mem_append, not_or, not_or, ih]
      simp only [hsep, not_false_eq_true, and_true, List.forall_mem_cons]

/-- A text that is put together with harmless separators is a cell if its parts are. -/
theorem isCell_intercalate {sep : String} (hsep : IsCell sep) :
    IsCell (String.intercalate sep ts) ↔ AreCells ts := by
  rw [IsCell, notMem_intercalate hsep.1, notMem_intercalate hsep.2]
  exact forall₂_and.symm

end AreCells

/-! ## Lines of a text -/

namespace Session

/-- A line holds no newline. -/
theorem newline_notMem_of_mem_linesOf {s line : String} (h : line ∈ linesOf s) :
    '\n' ∉ line.toList := by
  unfold linesOf at h
  dsimp only at h
  split at h
  · exact (Text.of_mem_pieces (List.mem_of_mem_dropLast h)).1
  · exact (Text.of_mem_pieces h).1

/-- Lines that are written one under the other are read back. -/
theorem linesOf_join {ls : List String} (h : ∀ l ∈ ls, '\n' ∉ l.toList) :
    linesOf (String.join (ls.map (· ++ "\n"))) = ls := by
  rw [linesOf, Text.pieces, Text.split_join h]
  simp

end Session

namespace Sheet

/-- The text of a sheet, line by line. -/
def text (s : Sheet) : String := String.join (s.lines.map (· ++ "\n"))

/-- The cells that a text is cut into, line by line. -/
def cellsOf (text : String) : List (List String) :=
  (Session.linesOf text).map (Text.pieces '\t')

/-- What a text is cut into can stand in cells. -/
theorem isCell_of_mem_cellsOf {text cell : String} {row : List String} (hrow : row ∈ cellsOf text)
    (hcell : cell ∈ row) : IsCell cell := by
  obtain ⟨line, hline, rfl⟩ := List.mem_map.mp hrow
  obtain ⟨htab, hinside⟩ := Text.of_mem_pieces hcell
  have hnewline := Session.newline_notMem_of_mem_linesOf hline
  exact ⟨htab, fun hmem => hnewline (hinside.subset hmem)⟩

/-- Rows of cells that are written as lines with tabs are read back. -/
theorem cellsOf_join {rows : List (List String)} (hne : ∀ row ∈ rows, row ≠ [])
    (h : ∀ row ∈ rows, AreCells row) :
    cellsOf (String.join ((rows.map (String.intercalate "\t")).map (· ++ "\n"))) = rows := by
  have hlines : ∀ line ∈ rows.map (String.intercalate "\t"), '\n' ∉ line.toList := by
    intro line hline
    obtain ⟨row, hrow, rfl⟩ := List.mem_map.mp hline
    exact (notMem_intercalate (by decide)).mpr fun cell hcell => (h row hrow cell hcell).2
  have hrow : ∀ row ∈ rows, Text.pieces '\t' (String.intercalate "\t" row) = row := by
    intro row hrow
    cases row with
    | nil => exact absurd rfl (hne _ hrow)
    | cons cell rest => exact Text.pieces_intercalate fun c hc => (h _ hrow c hc).1
  rw [cellsOf, Session.linesOf_join hlines, List.map_map]
  exact (List.map_congr_left hrow).trans (List.map_id rows)

/-- A sheet with cells in each of its rows is found again in its text exactly if every text in
them can stand in a cell. -/
theorem cellsOf_text_iff {s : Sheet} (hne : ∀ row ∈ s.headings :: s.rows, row ≠ []) :
    cellsOf s.text = s.headings :: s.rows ↔ AreCells s.headings ∧ AreCells s.rows.flatten := by
  have hrows : (∀ row ∈ s.headings :: s.rows, AreCells row) ↔
      AreCells s.headings ∧ AreCells s.rows.flatten := by
    rw [List.forall_mem_cons, ← List.flatMap_id', areCells_flatMap]
  rw [← hrows]
  constructor
  · intro hread row hrow cell hcell
    rw [← hread] at hrow
    exact isCell_of_mem_cellsOf hrow hcell
  · exact cellsOf_join hne

end Sheet
end Raml
