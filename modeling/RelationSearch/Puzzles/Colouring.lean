import RelationSearch.Search.Function

/-!
# Map colouring

Regions of a map get colours so that neighbours differ. Each region has a domain of all colours, and
each pair of neighbours a comparison, placed right after the domain of the later one, so that it is
checked as soon as both have colours.
-/
namespace RelationSearch

/-- A colour of a map. -/
inductive Colour
  | red
  | green
  | blue
  | yellow
  deriving Repr, DecidableEq, Inhabited

namespace Colour

/-- The name that shows a colour. -/
def name : Colour → String
  | .red => "Red"
  | .green => "Green"
  | .blue => "Blue"
  | .yellow => "Yellow"

/-- A colour as a value. -/
def value (c : Colour) : Value := .symbol c.name

/-- The colour with a name. -/
def ofName? (name : String) : Option Colour :=
  [red, green, blue, yellow].find? fun c => c.name == name

theorem ofName?_name (c : Colour) : ofName? c.name = some c := by
  cases c <;> decide

end Colour

namespace Colouring

/-- Holds of two different values. -/
def differ : Function := .ofTest fun
  | [l, r] => l != r
  | _ => false

/-- The comparison of two regions with the given places, if there are such regions. -/
def inequality {σ : Type} (regions : List Var) (edge : Nat × Nat) :
    Act Function σ (List (Relation Function)) := do
  match regions[edge.1]?, regions[edge.2]? with
  | some x, some y =>
    let r ← Relation.create fun n => .compare n x y (.custom differ)
    return [← r.labelled "different"]
  | _, _ => return []

/-- The domain of the region at a place, and the comparisons with its earlier neighbours. -/
def regionParts {σ : Type} (regions : List Var) (edges : List (Nat × Nat)) (colours : List Colour)
    (x : Var) (place : Nat) : Act Function σ (List (Relation Function)) := do
  let domain ← Relation.create fun n => .domain n x (colours.map Colour.value)
  let due := edges.filter fun edge => max edge.1 edge.2 == place
  let comparisons ← due.mapM (inequality regions)
  return domain :: comparisons.flatten

/-- The relation of the proper colourings of a map. An edge joins the regions at two places. -/
def relation {σ : Type} (regions : List Var) (edges : List (Nat × Nat)) (colours : List Colour) :
    Act Function σ (Relation Function) := do
  let parts ← regions.zipIdx.mapM fun (x, place) => regionParts regions edges colours x place
  Relation.all parts.flatten

/-- Colours a map whose regions have the given names. -/
def solve (names : List String) (edges : List (Nat × Nat)) (colours : List Colour)
    (limit : Option Nat) : Except Interrupt Outcome :=
  inFreshWorld do
    let regions ← names.mapM Var.create
    let root ← relation regions edges colours
    root.outcome limit

end Colouring
end RelationSearch
