import RelationSearch.Search.Function

/-!
# Sudoku on four by four cells

Every row, column and two-by-two box holds the numbers from one to four once each. Cells are numbered
row by row; each cell has a domain, and each group of cells a test that its values differ, placed right
after the domain of the group's last cell.
-/
namespace RelationSearch.Sudoku

/-- The cells of a row, and of a column. -/
def side : Nat := 4

/-- The cells of a box's side. -/
def boxSide : Nat := 2

/-- Holds of values of which no two are equal. -/
def allDifferent : Function := .ofTest Value.allDistinct

/-- The cells of a row. -/
def rowCells (row : Nat) : List Nat := (List.range side).map fun c => row * side + c

/-- The cells of a column. -/
def columnCells (column : Nat) : List Nat := (List.range side).map fun r => r * side + column

/-- The cells of the box whose first cell is in the given row and column. -/
def boxCells (top left : Nat) : List Nat :=
  (List.range boxSide).flatMap fun r => (List.range boxSide).map fun c => (top + r) * side + left + c

/-- The row, column and box whose last cell is the given one. -/
def groupsEndingAt (cell : Nat) : List (List Nat) :=
  let row := cell / side
  let column := cell % side
  (if column = side - 1 then [rowCells row] else []) ++
  (if row = side - 1 then [columnCells column] else []) ++
  (if row % boxSide = boxSide - 1 ∧ column % boxSide = boxSide - 1
    then [boxCells (row + 1 - boxSide) (column + 1 - boxSide)] else [])

/-- A number as a value. -/
def number (n : Nat) : Value := .int (Int64.ofNat n)

/-- The candidates of a cell: the given number, or, if that is zero, the numbers from one to four. -/
def candidates (given : Nat) : List Value :=
  if given = 0 then (List.range side).map fun i => number (i + 1) else [number given]

/-- The name of a cell. -/
def cellName (cell : Nat) : String :=
  "r" ++ toString (cell / side) ++ "c" ++ toString (cell % side)

/-- The test of a group of cells. -/
def groupTest {σ : Type} (cells : List Var) (group : List Nat) :
    Act Function σ (Relation Function) := do
  let operands := group.filterMap fun i => cells[i]?
  let r ← Relation.create fun n => .predicate n operands allDifferent
  r.labelled "all_different"

/-- The domain of the cell with a number, and the tests of the groups that it completes. -/
def cellParts {σ : Type} (cells : List Var) (givens : List Nat) (x : Var) (cell : Nat) :
    Act Function σ (List (Relation Function)) := do
  let domain ← Relation.create fun n => .domain n x (candidates (givens.getD cell 0))
  let tests ← (groupsEndingAt cell).mapM (groupTest cells)
  return domain :: tests

/-- The relation of the solved grids that agree with the givens. -/
def relation {σ : Type} (cells : List Var) (givens : List Nat) :
    Act Function σ (Relation Function) := do
  let parts ← cells.zipIdx.mapM fun (x, cell) => cellParts cells givens x cell
  Relation.all parts.flatten

/-- The values of some cells in a solution. -/
def gridOf (cells : List Var) (s : Solution) : List Value :=
  cells.map fun x => (s.get? x).getD .unit

/-- Solves the grid with the given numbers, zero for an empty cell. Answers also the solved grids. -/
def solve (givens : List Nat) (limit : Option Nat) :
    Except Interrupt (Outcome × List (List Value)) :=
  inFreshWorld do
    let cells ← (List.range (side * side)).mapM fun cell => Var.create (cellName cell)
    let root ← relation cells givens
    let outcome ← root.outcome limit
    return (outcome, outcome.solutions.map (gridOf cells))

end RelationSearch.Sudoku
