import RelationSearch.Search.Leaf

/-!
# Solving and resetting relations

`Relation.solve` advances a relation to its next satisfying state, by chronological backtracking: the
right side of a conjunction varies fastest, and a disjunction exhausts its left side before its right
one. The search can be resumed, because each node notes where it paused. `Relation.reset` rewinds a
relation and everything below it.

Both mark their node busy while they are under way. Solving a busy node is interrupted as re-entrant,
resetting one as busy.

All recursion is on the relation. Only the loop of a conjunction, which runs until the right side has
a solution or the left side has none, is bounded by fuel.
-/
namespace RelationSearch

variable {κ σ : Type}

/-- Advances the left side of a conjunction until the right side has a solution under it. -/
def conjoin (n : Nat) (left right : Act κ σ Bool) (rewindRight : Act κ σ Unit) :
    Nat → Act κ σ Bool
  | 0 => throw .outOfFuel
  | fuel + 1 => do
    if ← left then
      Act.setProgress n .retrying
      if ← right then return true
      else
        rewindRight
        conjoin n left right rewindRight fuel
    else
      Act.setProgress n .exhausted
      return false

/-- Advances a conjunction: the right side first, if a left solution is in place. -/
def advanceAnd (fuel : Nat) (n : Nat) (left right : Act κ σ Bool) (rewindRight : Act κ σ Unit) :
    Act κ σ Bool := do
  match ← Act.progress n with
  | .exhausted => return false
  | .retrying =>
    if ← right then return true
    else
      rewindRight
      conjoin n left right rewindRight fuel
  | _ => conjoin n left right rewindRight fuel

/-- Advances the right side of a disjunction. -/
def disjoinRight (n : Nat) (right : Act κ σ Bool) : Act κ σ Bool := do
  if ← right then return true
  else
    Act.setProgress n .exhausted
    return false

/-- Advances a disjunction: the left side until it is exhausted and rewound, then the right side. -/
def advanceOr (n : Nat) (left right : Act κ σ Bool) (rewindLeft : Act κ σ Unit) : Act κ σ Bool := do
  match ← Act.progress n with
  | .exhausted => return false
  | .inRight => disjoinRight n right
  | _ =>
    if ← left then
      Act.setProgress n .inLeft
      return true
    else
      rewindLeft
      Act.setProgress n .inRight
      disjoinRight n right

/-- Runs a search of a node as a call of `solve`: not while the node is busy, and counted when it
answers. -/
def answering (r : Relation κ) (search : Act κ σ Bool) : Act κ σ Bool := do
  let node := (← get).node r.node
  if node.busy then throw (.reentrant node.label)
  let answer ← Act.holding r.node search
  modify fun w => w.modifyNode r.node fun node => { node with
    counters := { node.counters with
      solveCalls := node.counters.solveCalls + 1
      successes := node.counters.successes + answer.toNat } }
  Act.record fun w => .solved (w.image r) answer
  return answer

/-- Rewinds a node as a call of `reset`: not while the node is busy, and counted when it is done. -/
def rewinding (r : Relation κ) (undo : Act κ σ Unit) : Act κ σ Unit := do
  if ((← get).node r.node).busy then throw .busy
  Act.holding r.node do
    undo
    Act.setProgress r.node .fresh
  modify fun w => w.modifyNode r.node fun node => { node with
    counters := { node.counters with resets := node.counters.resets + 1 } }
  Act.record fun w => .rewound (w.image r)

namespace Relation

/-- Rewinds a relation and its parts to the fresh state and undoes their bindings and watches. -/
def reset : Relation κ → Act κ σ Unit
  | .and n l r => rewinding (.and n l r) do
    r.reset
    l.reset
  | .or n l r => rewinding (.or n l r) do
    l.reset
    r.reset
  | leaf => rewinding leaf (retract leaf)

/-- Advances a relation to its next satisfying state. Answers `false` when it is exhausted, and goes on
doing so until it is reset. -/
def solve (call : Caller κ σ) (fuel : Nat) : Relation κ → Act κ σ Bool
  | .domain n x values => answering (.domain n x values) (advanceDomain call n x values)
  | .convert n x y f => answering (.convert n x y f) (advanceConvert call (.convert n x y f) n x y f)
  | .compare n x y c => answering (.compare n x y c) (advanceCompare call n x y c)
  | .predicate n xs f =>
    answering (.predicate n xs f) (advancePredicate call (.predicate n xs f) n xs f)
  | .and n l r =>
    answering (.and n l r) (advanceAnd fuel n (l.solve call fuel) (r.solve call fuel) r.reset)
  | .or n l r =>
    answering (.or n l r) (advanceOr n (l.solve call fuel) (r.solve call fuel) l.reset)
  | .always n => answering (.always n) (advanceAlways n)
  | .never n => answering (.never n) (return false)

end Relation
end RelationSearch
