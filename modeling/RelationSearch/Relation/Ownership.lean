import RelationSearch.Relation.Image
import RelationSearch.Search.Binding

/-!
# Owning relations

A node is owned by the handles on it and by the parents that have it as a part. When its last owner
gives it up the node is gone: it gives up its own parts, and a comparison takes its watches with it.
Bindings stay as they are.
-/
namespace RelationSearch

variable {κ σ : Type}

namespace Relation

/-- Adds an owner. -/
def retain (r : Relation κ) : Act κ σ Unit :=
  modify fun w => w.modifyNode r.node fun node => { node with owners := node.owners + 1 }

/-- Takes an owner away. Answers whether it was the last one. -/
def disown (n : Nat) : Act κ σ Bool := do
  modify fun w => w.modifyNode n fun node => { node with owners := node.owners - 1 }
  return ((← get).node n).owners == 0

/-- Gives up one owner of a relation. -/
def release : Relation κ → Act κ σ Unit
  | .and n l r | .or n l r => do
    if ← disown n then
      l.release
      r.release
  | .compare n _ _ _ => do
    if ← disown n then
      match ← Act.progress n with
      | .fired watches =>
        dropWatches watches
        Act.setProgress n (.fired [])
      | _ => return ()
  | leaf => do
    let _ ← disown leaf.node

/-- Announces that an owner gives a relation up. -/
def announceRelease (r : Relation κ) : Act κ σ Unit :=
  Act.record fun w => .released (w.image r) ((w.node r.node).owners - 1)

end Relation
end RelationSearch
