import RelationSearch.Value.Basic
import RelationSearch.Var

/-!
# Relations

A relation says how the values of some variables may combine. It is immutable data: what moves while
it is searched is kept in the world, under the relation's node number. The same node may occur at
several places of a relation, and all its occurrences then share one search state.

The tests and conversions inside a relation are callbacks of some type `κ`. A search is told how to
run them, so a callback may be a plain function, or a script that acts on the world itself.
-/
namespace RelationSearch

/-- What a comparison relation requires of its two operands. -/
inductive Comparison (κ : Type)
  /-- The values are equal. -/
  | equality
  /-- The test, run on the two values, holds. -/
  | custom (test : κ)

/-- A relation whose callbacks have type `κ`. Every constructor starts with the node number. -/
inductive Relation (κ : Type)
  /-- The variable takes each of the values in turn, or, bound elsewhere, holds one of them. -/
  | domain (node : Nat) (var : Var) (values : List Value)
  /-- The target's value is the conversion of the source's value. -/
  | convert (node : Nat) (source target : Var) (conversion : κ)
  /-- The comparison holds between the two variables, from when both are bound. -/
  | compare (node : Nat) (left right : Var) (comparison : Comparison κ)
  /-- The test holds of the values of the operands, which must be bound. -/
  | predicate (node : Nat) (operands : List Var) (test : κ)
  /-- Both relations hold. -/
  | and (node : Nat) (left right : Relation κ)
  /-- The left relation holds, or after all its solutions the right one. -/
  | or (node : Nat) (left right : Relation κ)
  /-- Holds once. -/
  | always (node : Nat)
  /-- Never holds. -/
  | never (node : Nat)

namespace Relation

variable {κ : Type}

/-- The number of a relation's node. -/
def node : Relation κ → Nat
  | .domain n _ _ | .convert n _ _ _ | .compare n _ _ _ | .predicate n _ _
  | .and n _ _ | .or n _ _ | .always n | .never n => n

/-- The name of a relation's kind. Conversions and comparisons both propagate values. -/
def kind : Relation κ → String
  | .domain .. => "Domain"
  | .convert .. | .compare .. => "Propagate"
  | .predicate .. => "Predicate"
  | .and .. => "And"
  | .or .. => "Or"
  | .always _ => "True"
  | .never _ => "False"

/-- The variables a leaf mentions, in the order it mentions them. -/
def operands : Relation κ → List Var
  | .domain _ x _ => [x]
  | .convert _ x y _ | .compare _ x y _ => [x, y]
  | .predicate _ xs _ => xs
  | .and .. | .or .. | .always _ | .never _ => []

/-- The direct parts of a relation. -/
def parts : Relation κ → List (Relation κ)
  | .and _ l r | .or _ l r => [l, r]
  | _ => []

end Relation
end RelationSearch
