import RelationSearch.Store.World

/-!
# Binding variables

A variable is bound by offering it a value. Its watches are asked first, oldest first, and the first
one that refuses ends the offer: the variable keeps its state. Every change of a binding, and nothing
else, raises the generation (`Cell.put`, `Cell.clear`).
-/
namespace RelationSearch

variable {κ σ : Type}

namespace Cell

/-- The cell after its variable was bound. -/
def put (cell : Cell κ) (v : Value) : Cell κ :=
  { cell with value := some v, generation := cell.generation + 1 }

/-- The cell after its variable was unbound. An unbound variable does not change. -/
def clear (cell : Cell κ) : Cell κ :=
  match cell.value with
  | some _ => { cell with value := none, generation := cell.generation + 1 }
  | none => cell

/-- The cell with one more watch, after all others. -/
def addWatch (cell : Cell κ) (other : Var) (comparison : Comparison κ) (onLeft : Bool) : Cell κ :=
  { cell with
    watches := cell.watches ++ [{ id := cell.nextWatch, other, comparison, onLeft }]
    nextWatch := cell.nextWatch + 1 }

/-- The cell without one of its watches. -/
def dropWatch (cell : Cell κ) (id : Nat) : Cell κ :=
  { cell with watches := cell.watches.filter fun watch => watch.id != id }

@[simp] theorem value_put (cell : Cell κ) (v : Value) : (cell.put v).value = some v := rfl

@[simp] theorem generation_put (cell : Cell κ) (v : Value) :
    (cell.put v).generation = cell.generation + 1 := rfl

@[simp] theorem value_clear (cell : Cell κ) : cell.clear.value = none := by
  unfold clear; split <;> simp_all

theorem generation_clear (cell : Cell κ) :
    cell.clear.generation = cell.generation + (if cell.value.isSome then 1 else 0) := by
  unfold clear; split <;> simp_all

@[simp] theorem watches_clear (cell : Cell κ) : cell.clear.watches = cell.watches := by
  unfold clear; split <;> rfl

end Cell

/-- Whether a watch lets a value through. It does while the other operand is unbound. -/
def Watch.accepts (call : Caller κ σ) (v : Value) (watch : Watch κ) : Act κ σ Bool := do
  match ← Act.value watch.other with
  | none => return true
  | some held =>
    if watch.onLeft then watch.comparison.holds call v held
    else watch.comparison.holds call held v

/-- Whether all of some watches let a value through. The first refusal ends the question. -/
def acceptedBy (call : Caller κ σ) (v : Value) : List (Watch κ) → Act κ σ Bool
  | [] => return true
  | watch :: rest => do
    if ← watch.accepts call v then acceptedBy call v rest else return false

namespace Var

/-- Offers a value to a variable. Answers whether the variable took it. -/
def bind (call : Caller κ σ) (x : Var) (v : Value) : Act κ σ Bool := do
  if ← acceptedBy call v ((← get).cell x).watches then
    modify fun w => w.modifyCell x (·.put v)
    return true
  else
    Act.record fun _ => .rejected x.name v.image
    return false

/-- Unbinds a variable. -/
def unbind (x : Var) : Act κ σ Unit :=
  modify fun w => w.modifyCell x Cell.clear

/-- Leaves a watch at a variable. Answers the watch's id. -/
def addWatch (x : Var) (other : Var) (comparison : Comparison κ) (onLeft : Bool) : Act κ σ Nat := do
  let id := ((← get).cell x).nextWatch
  modify fun w => w.modifyCell x (·.addWatch other comparison onLeft)
  return id

/-- Takes a watch away from a variable. -/
def dropWatch (x : Var) (id : Nat) : Act κ σ Unit :=
  modify fun w => w.modifyCell x (·.dropWatch id)

end Var

/-- Takes away the watches that a comparison left. -/
def dropWatches : List (Var × Nat) → Act κ σ Unit
  | [] => return ()
  | (x, id) :: rest => do
    x.dropWatch id
    dropWatches rest

end RelationSearch
