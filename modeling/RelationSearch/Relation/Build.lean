import RelationSearch.Store.World

/-!
# Creating variables and relations

New variables and nodes get the next numbers of the world. A new node has one owner, the handle that
its creator holds; a conjunction or disjunction takes over the handles on its two sides.
-/
namespace RelationSearch

variable {κ σ : Type}

/-- Creates an unbound variable. -/
def Var.create (name : String) : Act κ σ Var := do
  let id := (← get).cells.size
  modify fun w => { w with cells := w.cells.push {} }
  return { id, name }

namespace Relation

/-- Creates the relation that `make` gives for a new node. -/
def create (make : Nat → Relation κ) : Act κ σ (Relation κ) := do
  let n := (← get).nodes.size
  modify fun w => { w with nodes := w.nodes.push { owners := 1 } }
  return make n

/-- Joins relations two by two from the left. The relation `unit` stands for none, and a single
relation for itself. -/
def joinAll (join : Relation κ → Relation κ → Act κ σ (Relation κ)) (unit : Act κ σ (Relation κ)) :
    List (Relation κ) → Act κ σ (Relation κ)
  | [] => unit
  | r :: rs => rs.foldlM join r

/-- The conjunction of some relations. That of none holds once. -/
def all (rs : List (Relation κ)) : Act κ σ (Relation κ) :=
  joinAll (fun l r => create (.and · l r)) (create .always) rs

/-- The disjunction of some relations. That of none never holds. -/
def any (rs : List (Relation κ)) : Act κ σ (Relation κ) :=
  joinAll (fun l r => create (.or · l r)) (create .never) rs

/-- Names a relation, unless it has a name. -/
def labelled (label : String) (r : Relation κ) : Act κ σ (Relation κ) := do
  modify fun w => w.modifyNode r.node fun node =>
    { node with label := node.label.or (some label) }
  return r

end Relation
end RelationSearch
