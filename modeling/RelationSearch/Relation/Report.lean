import RelationSearch.Relation.Traversal
import RelationSearch.Text.Grid

/-!
# Reports on relations

What a node shows of itself: its kind, its label, how often it was driven and how many owners it has;
and the grid that lists this for all nodes of a relation.
-/
namespace RelationSearch

variable {κ σ α : Type}

/-- What a node shows of itself. -/
structure NodeReport where
  kind : String
  label : Option String
  counters : Counters
  owners : Nat
  deriving Repr, DecidableEq, Inhabited

/-- The report on a relation's node. -/
def World.report (w : World κ σ) (r : Relation κ) : NodeReport :=
  let node := w.node r.node
  { kind := w.kind r, label := node.label, counters := node.counters, owners := node.owners }

/-- A text that may be missing, as a record shows it. -/
def optionalText : Option String → String
  | some text => "Some(" ++ text ++ ")"
  | none => "None"

/-- A report as a record in one line. -/
def NodeReport.record (report : NodeReport) : String :=
  "Relation \x7b kind: " ++ Text.quoted report.kind ++ ", label: " ++
    optionalText (report.label.map Text.quoted) ++ ", ref_count: " ++ toString report.owners ++ " \x7d"

/-- The head of the grid of reports. -/
def NodeReport.heads : List String :=
  ["Relation", "Label", "Solve Calls", "Successes", "Resets", "Owners"]

/-- A report as a row of the grid. -/
def NodeReport.row (report : NodeReport) : List String :=
  [report.kind, report.label.getD "-", toString report.counters.solveCalls,
    toString report.counters.successes, toString report.counters.resets, toString report.owners]

namespace Relation

/-- The reports on relations that are held, not counting the handle on each, which is given up. -/
def reportsOf : List (Relation κ) → Act κ σ (List NodeReport)
  | [] => return []
  | r :: rest => do
    let report := (← get).report r
    r.release
    return { report with owners := report.owners - 1 } :: (← reportsOf rest)

/-- The reports on all nodes of a relation. -/
def reports (r : Relation κ) : Act κ σ (List NodeReport) := do
  reportsOf (← r.nodes)

/-- Draws the reports on all nodes of a relation, as rows under their head. -/
def drawReports (draw : List (List String) → Act κ σ α) (r : Relation κ) : Act κ σ α := do
  draw (NodeReport.heads :: (← r.reports).map NodeReport.row)

/-- The grid of the reports on all nodes of a relation. It fails if a label cannot be measured. -/
def reportGrid (r : Relation κ) : Act κ σ (List String) :=
  r.drawReports fun rows =>
    match Text.grid rows with
    | .ok lines => return lines
    | .error fault => throw (.failed fault.message)

end Relation

/-- A variable as a record in one line. -/
def World.varRecord (w : World κ σ) (x : Var) : String :=
  "LogicVar \x7b id: " ++ toString x.id ++ ", name: " ++ Text.quoted x.name ++ ", value: " ++
    optionalText ((w.value x).map Value.image) ++ " \x7d"

end RelationSearch
