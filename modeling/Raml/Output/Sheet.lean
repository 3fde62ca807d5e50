import Raml.Table
import Raml.Value.Basic

/-!
# Sheets

A sheet has a heading for each column and rows of cells below them. It is written as lines of
cells with tabs between them, the headings first, or as a list of mappings from headings to
cells, one for each row.
-/

namespace Raml

/-- Rows of cells under headings. -/
structure Sheet where
  headings : List String
  rows : List (List String)
  deriving DecidableEq, Repr, Inhabited

namespace Sheet

/-- The sheet as lines, the headings first. -/
def lines (s : Sheet) : List String := (s.headings :: s.rows).map (String.intercalate "\t")

/-- A row as a mapping; of several cells under one heading the last one counts. -/
def rowValue (headings cells : List String) : Value :=
  .map ((Table.ofEntries (headings.zip cells)).map fun e => (.str e.1, .str e.2))

/-- The sheet as a list of mappings. -/
def toValue (s : Sheet) : Value := .list (s.rows.map (rowValue s.headings))

end Sheet
end Raml
