import RelationSearch.Text.Columns

/-!
# Grids

A table of texts drawn with rules: one before the first row and one after every row. Cells are
aligned on the left with a blank on each side, and every column is as wide as its widest cell. A cell
of several lines makes its row as high as it has lines. A grid is drawn only if all its lines can be
measured; otherwise the first that cannot is the fault.
-/
namespace RelationSearch.Text

/-- A row of a grid, each cell as its lines. -/
abbrev GridRow := List (List Line)

/-- The columns that a cell takes. -/
def cellWidth (cell : List Line) : Nat := (cell.map Line.columns).foldl max 0

/-- The widths of the columns that fit all rows. -/
def gridWidths (rows : List GridRow) : List Nat :=
  rows.foldl (fun widths row =>
    let count := max widths.length row.length
    (List.range count).map fun i => max (widths.getD i 0) (cellWidth (row.getD i []))) []

/-- The rule between rows. -/
def gridRule (widths : List Nat) : String :=
  "+" ++ String.join (widths.map fun width => String.ofList (List.replicate (width + 2) '-') ++ "+")

/-- The lines of a row. -/
def gridRow (widths : List Nat) (row : GridRow) : List String :=
  let height := max 1 ((row.map List.length).foldl max 0)
  (List.range height).map fun i =>
    "|" ++ String.join (widths.zipIdx.map fun (width, column) =>
      " " ++ ((row.getD column []).getD i {}).padRight width ++ " |")

/-- The lines of a cell, measured. -/
def measureCell (text : String) : Except Overhidden (List Line) := (lines text).mapM Line.measure

/-- The lines of a grid whose cells hold the given texts. -/
def grid (rows : List (List String)) : Except Overhidden (List String) := do
  let rows ← rows.mapM fun row => row.mapM measureCell
  let widths := gridWidths rows
  return gridRule widths :: rows.flatMap fun row => gridRow widths row ++ [gridRule widths]

end RelationSearch.Text
