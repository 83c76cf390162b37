import RelationSearch.Relation.Basic
import RelationSearch.Store.Event
import RelationSearch.Store.Table

/-!
# The world of a search

All that moves while relations are searched: the cells of the variables and the nodes of the
relations. A relation itself never changes; its node holds where its search paused, whether a call on
it is under way, how often it was driven and how many owners it has.

A computation on a world (`Act`) answers or is interrupted. Either way it leaves a world behind: an
interrupt undoes nothing.

Generations, the ids of watches and the counters of nodes are natural numbers. Counted in 64 bits they
would overflow after 2^64 steps; no search comes to that, and it is left out.
-/
namespace RelationSearch

/-- A check that a comparison left at one of its operands: every value offered there is compared with
the value of the other operand, if that is bound. -/
structure Watch (κ : Type) where
  /-- Tells the watches of one variable apart. -/
  id : Nat
  /-- The other operand. -/
  other : Var
  /-- The comparison to run. -/
  comparison : Comparison κ
  /-- Whether the offered value is the left operand of the comparison. -/
  onLeft : Bool

/-- The cell of a variable. -/
structure Cell (κ : Type) where
  value : Option Value := none
  /-- The number of times the binding changed. It is not bounded. -/
  generation : Nat := 0
  /-- The watches on the variable, oldest first. -/
  watches : List (Watch κ) := []
  /-- The id that the next watch gets. It is not bounded, so that no id is given twice. -/
  nextWatch : Nat := 0
  deriving Inhabited

/-- Where the search of a node paused. Every kind of relation starts `fresh` and uses a few of the
other states. -/
inductive Progress
  /-- Not solved since its creation or the last reset. -/
  | fresh
  /-- A domain is binding its variable; these values have not been offered yet. -/
  | binding (rest : List Value)
  /-- A domain found its variable bound and has checked the value. -/
  | checked
  /-- A conversion ran under this generation of its source. `ownsTarget` tells whether the target's
  binding is its work. -/
  | applied (generation : Nat) (ownsTarget : Bool)
  /-- A relation that holds once has had its turn. A comparison lists the watches it left: the
  variable and the id of each. -/
  | fired (watches : List (Var × Nat))
  /-- A conjunction whose left side holds a solution, under which the right side is searched. -/
  | retrying
  /-- A disjunction that is searching its left side. -/
  | inLeft
  /-- A disjunction whose left side is exhausted and that is searching its right side. -/
  | inRight
  /-- A conjunction or disjunction without further solutions. -/
  | exhausted
  deriving Inhabited

/-- How often a node has been driven. A call counts when it comes back with an answer. The counts are not
bounded and never overflow. -/
structure Counters where
  solveCalls : Nat := 0
  successes : Nat := 0
  resets : Nat := 0
  deriving Repr, DecidableEq, Inhabited

/-- The state of a relation's node. -/
structure Node where
  /-- The name the node was given first. -/
  label : Option String := none
  progress : Progress := .fresh
  /-- Whether a call of `solve` or `reset` on the node is under way. -/
  busy : Bool := false
  counters : Counters := {}
  /-- The number of handles and parents that hold the node. -/
  owners : Nat := 0
  deriving Inhabited

/-- Why a computation ended without an answer. -/
inductive Interrupt
  /-- A relation needed the value of a variable that has none. -/
  | unbound (variableName : String) (relation : String)
  /-- A relation was solved while it was being solved. -/
  | reentrant (label : Option String)
  /-- A relation was reset or walked through while it was being solved. -/
  | busy
  /-- A callback failed, or a report could not be drawn. -/
  | failed (message : String)
  /-- A search took more steps than it was given. -/
  | outOfFuel
  deriving Repr, DecidableEq, Inhabited

/-- The explanation of a violated contract. -/
def Interrupt.message : Interrupt → String
  | .unbound variableName relation =>
    "variable `" ++ variableName ++ "` is unbound while evaluating " ++ relation
  | .reentrant label =>
    "relation " ++ label.getD "<unlabelled>" ++ " was re-entered while it was being solved"
  | .busy => "relation is being solved"
  | .failed message => message
  | .outOfFuel => "out of fuel"

/-- All mutable state. `κ` is the type of callbacks and `σ` that of the client's own state, which only
callbacks and the client touch. -/
structure World (κ σ : Type) where
  cells : Table (Cell κ) := .empty
  nodes : Table Node := .empty
  /-- Whether events are recorded. -/
  tracing : Bool := false
  /-- The events recorded so far and not yet taken, oldest first. -/
  events : Array Event := #[]
  client : σ

/-- A computation on a world. -/
abbrev Act (κ σ α : Type) := EStateM Interrupt (World κ σ) α

variable {κ σ α : Type}

namespace World

/-- The cell of a variable. -/
def cell (w : World κ σ) (x : Var) : Cell κ := w.cells.get x.id

/-- The value of a variable, if it is bound. -/
def value (w : World κ σ) (x : Var) : Option Value := (w.cell x).value

/-- A node's state. -/
def node (w : World κ σ) (n : Nat) : Node := w.nodes.get n

/-- Changes the cell of a variable. -/
def modifyCell (w : World κ σ) (x : Var) (f : Cell κ → Cell κ) : World κ σ :=
  { w with cells := w.cells.modify x.id f }

/-- Changes the state of a node. -/
def modifyNode (w : World κ σ) (n : Nat) (f : Node → Node) : World κ σ :=
  { w with nodes := w.nodes.modify n f }

/-- Marks a node busy or not. -/
def setBusy (w : World κ σ) (n : Nat) (busy : Bool) : World κ σ :=
  w.modifyNode n fun node => { node with busy }

/-- Records an event, if the world is traced. -/
def record (w : World κ σ) (event : World κ σ → Event) : World κ σ :=
  if w.tracing then
    let event := event w
    { w with events := w.events.push event }
  else w

@[simp] theorem node_modifyNode_self (w : World κ σ) (n : Nat) (f : Node → Node) :
    (w.modifyNode n f).node n = f (w.node n) := by
  simp [node, modifyNode]

theorem node_modifyNode_of_ne (w : World κ σ) {m n : Nat} (f : Node → Node) (h : n ≠ m) :
    (w.modifyNode n f).node m = w.node m :=
  Table.get_modify_of_ne _ _ h

@[simp] theorem cell_modifyNode (w : World κ σ) (n : Nat) (f : Node → Node) (x : Var) :
    (w.modifyNode n f).cell x = w.cell x := rfl

@[simp] theorem node_modifyCell (w : World κ σ) (x : Var) (f : Cell κ → Cell κ) (n : Nat) :
    (w.modifyCell x f).node n = w.node n := rfl

@[simp] theorem cell_modifyCell_self (w : World κ σ) (x : Var) (f : Cell κ → Cell κ) :
    (w.modifyCell x f).cell x = f (w.cell x) := by
  simp [cell, modifyCell]

theorem cell_modifyCell_of_ne (w : World κ σ) {x y : Var} (f : Cell κ → Cell κ)
    (h : x.id ≠ y.id) : (w.modifyCell x f).cell y = w.cell y :=
  Table.get_modify_of_ne _ _ h

@[simp] theorem cell_record (w : World κ σ) (event : World κ σ → Event) (x : Var) :
    (w.record event).cell x = w.cell x := by
  unfold record; split <;> rfl

@[simp] theorem node_record (w : World κ σ) (event : World κ σ → Event) (n : Nat) :
    (w.record event).node n = w.node n := by
  unfold record; split <;> rfl

end World

namespace Act

/-- The value of a variable, if it is bound. -/
def value (x : Var) : Act κ σ (Option Value) := do return (← get).value x

/-- Where the search of a node paused. -/
def progress (n : Nat) : Act κ σ Progress := do return ((← get).node n).progress

/-- Notes where the search of a node pauses. -/
def setProgress (n : Nat) (progress : Progress) : Act κ σ Unit :=
  modify fun w => w.modifyNode n fun node => { node with progress }

/-- Records an event, if the world is traced. -/
def record (event : World κ σ → Event) : Act κ σ Unit :=
  modify fun w => w.record event

/-- Runs a computation and turns an interrupt into an answer. What was done before it stays done. -/
def attempt (act : Act κ σ α) : Act κ σ (Except Interrupt α) := fun w =>
  match act w with
  | .ok a w => .ok (.ok a) w
  | .error why w => .ok (.error why) w

/-- Runs a computation with a node marked busy. The mark goes when the computation ends, whichever
way it ends. -/
def holding (n : Nat) (act : Act κ σ α) : Act κ σ α := fun w =>
  match act (w.setBusy n true) with
  | .ok a w => .ok a (w.setBusy n false)
  | .error why w => .error why (w.setBusy n false)

end Act

/-- How a search runs callbacks: on a list of arguments, in the world as it then is. -/
abbrev Caller (κ σ : Type) := κ → List Value → Act κ σ Value

/-- Runs a callback as a test. -/
def Caller.holds (call : Caller κ σ) (test : κ) (args : List Value) : Act κ σ Bool := do
  return (← call test args).isTrue

/-- Whether a comparison holds of two values. -/
def Comparison.holds (call : Caller κ σ) (left right : Value) : Comparison κ → Act κ σ Bool
  | .equality => return left == right
  | .custom test => call.holds test [left, right]

end RelationSearch
