import RelationSearch.Relation.Ownership

/-!
# Walking through relations

The variables and the nodes of a relation, each listed once, in the order in which a walk from the
root meets them first, left before right. A relation that is being solved cannot be walked through:
a walk that meets one is interrupted.

The variables are gathered by a recursion, which enters a shared part once for every place it has. The
nodes are gathered with a stack of those that are still to be entered, and a node that was found before is
passed over. This walk holds a handle on every relation on its stack and on every one it has found.
-/
namespace RelationSearch

variable {κ σ : Type}

/-- Adds those variables to a list that are not in it yet. -/
def addNew (seen : List Var) (xs : List Var) : List Var :=
  xs.foldl (fun seen x => if seen.any (·.id == x.id) then seen else seen ++ [x]) seen

namespace World

/-- Nothing, if a node is busy. -/
def idle (w : World κ σ) (n : Nat) : Option Unit :=
  if (w.node n).busy then none else some ()

/-- Adds the variables of a relation to those met so far. -/
def addVariables (w : World κ σ) (seen : List Var) : Relation κ → Option (List Var)
  | .and n l r | .or n l r => do
    w.idle n
    w.addVariables (← w.addVariables seen l) r
  | leaf => do
    w.idle leaf.node
    return addNew seen leaf.operands

/-- The kind of a relation, unless it is being solved. -/
def kind (w : World κ σ) (r : Relation κ) : String :=
  if (w.node r.node).busy then "<busy>" else r.kind

end World

/-- Answers what a recursion found, or is interrupted if it met a relation that is being solved. -/
def Act.ofWalk {α : Type} (walk : World κ σ → Option α) : Act κ σ α := do
  match walk (← get) with
  | some found => return found
  | none => throw .busy

namespace Relation

/-- The variables of a relation. -/
def vars (r : Relation κ) : Act κ σ (List Var) :=
  Act.ofWalk fun w => w.addVariables [] r

/-- The number of places in a relation. A shared part has as many places as it is met. -/
def places : Relation κ → Nat
  | .and _ l r | .or _ l r => 1 + l.places + r.places
  | _ => 1

/-- The number of places in some relations together. -/
def placesIn : List (Relation κ) → Nat
  | [] => 0
  | r :: rest => r.places + placesIn rest

theorem places_pos (r : Relation κ) : 0 < r.places := by
  cases r <;> simp only [places] <;> omega

/-- To enter a relation leaves one place less. -/
theorem placesIn_parts (r : Relation κ) (stack : List (Relation κ)) :
    placesIn (r.parts ++ stack) < placesIn (r :: stack) := by
  cases r <;> simp only [parts, places, placesIn, List.cons_append, List.nil_append] <;> omega

/-- Takes a handle on each of some relations. -/
def retainAll : List (Relation κ) → Act κ σ Unit
  | [] => return ()
  | r :: rest => do
    r.retain
    retainAll rest

/-- Gives up a handle on each of some relations. -/
def releaseAll : List (Relation κ) → Act κ σ Unit
  | [] => return ()
  | r :: rest => do
    r.release
    releaseAll rest

/-- Enters the relations on a stack from the top, and adds those to the found ones that are new, parents
before parts. Every relation on the stack and every one found comes with a handle on it. -/
def walk (found : List (Relation κ)) : (stack : List (Relation κ)) → Act κ σ (List (Relation κ))
  | [] => return found
  | r :: stack => do
    if found.any (·.node == r.node) then
      r.release
      walk found stack
    else if ((← get).node r.node).busy then
      releaseAll (r :: stack ++ found)
      throw .busy
    else
      retainAll r.parts
      -- the left part on top
      walk (found ++ [r]) (r.parts ++ stack)
termination_by stack => placesIn stack
decreasing_by
  · exact Nat.lt_add_of_pos_left (places_pos r)
  · exact placesIn_parts r stack

/-- The distinct nodes of a relation, parents before parts, with a handle on each. -/
def nodes (r : Relation κ) : Act κ σ (List (Relation κ)) := do
  r.retain
  walk [] [r]

/-- The direct parts of a relation that is not being solved. -/
def children (r : Relation κ) : Act κ σ (List (Relation κ)) :=
  Act.ofWalk fun w => (w.idle r.node).map fun _ => r.parts

end Relation
end RelationSearch
