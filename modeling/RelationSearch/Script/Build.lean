import RelationSearch.Relation.Build
import RelationSearch.Script.Session
import RelationSearch.Script.Step

/-!
# Building relations from recipes

A recipe is followed from left to right. Mentioning a relation by name makes its new parent one more
owner. A recipe that names something unknown builds nothing: what was built before that is given up.
-/
namespace RelationSearch.Script

variable {κ α : Type}

/-- A computation of a script that may have no answer. Like an interrupt, a failure undoes nothing. -/
abbrev Try (κ α : Type) := EStateM Failure (World κ (Session κ)) α

/-- A computation as one that fails when it is interrupted. -/
def doing (act : Doing κ α) : Try κ α := fun w =>
  match act w with
  | .ok a w => .ok a w
  | .error why w => .error (.interrupted why) w

/-- The entry of a name, which must have one. -/
def resolve (registry : Session κ → Registry α) (name : String) : Try κ α := do
  match (registry (← get).client).find? name with
  | some a => return a
  | none => throw .badStep

/-- The variable with a name. -/
def varNamed (name : String) : Try κ Var := resolve Session.vars name

/-- Gives a relation up if a computation has no answer. -/
def orGiveUp (r : Relation κ) (act : Try κ α) : Try κ α :=
  tryCatch act fun failure => do
    doing r.release
    throw failure

namespace Recipe

mutual

/-- Builds the relation of a recipe. The script owns it. -/
def build : Recipe κ → Try κ (Relation κ)
  | .named id => do
    let handle ← resolve Session.handles id
    doing handle.relation.retain
    return handle.relation
  | .domain var values order => do
    let x ← varNamed var
    doing <| Relation.create fun n => .domain n x (order.arrange values)
  | .convert source target conversion => do
    let x ← varNamed source
    let y ← varNamed target
    doing <| Relation.create fun n => .convert n x y conversion
  | .compare left right test => do
    let x ← varNamed left
    let y ← varNamed right
    doing <| Relation.create fun n => .compare n x y (.custom test)
  | .equals left right => do
    let x ← varNamed left
    let y ← varNamed right
    doing <| Relation.create fun n => .compare n x y .equality
  | .predicate operands test => do
    let xs ← operands.mapM varNamed
    doing <| Relation.create fun n => .predicate n xs test
  | .and left right => do
    let l ← build left
    let r ← orGiveUp l (build right)
    doing <| Relation.create fun n => .and n l r
  | .or left right => do
    let l ← build left
    let r ← orGiveUp l (build right)
    doing <| Relation.create fun n => .or n l r
  | .all parts => do doing (Relation.all (← buildAll parts))
  | .any parts => do doing (Relation.any (← buildAll parts))
  | .always => doing (Relation.create .always)
  | .never => doing (Relation.create .never)
  | .labelled label recipe => do doing ((← build recipe).labelled label)

/-- Builds the relations of some recipes. -/
def buildAll : List (Recipe κ) → Try κ (List (Relation κ))
  | [] => return []
  | recipe :: rest => do
    let r ← build recipe
    return r :: (← orGiveUp r (buildAll rest))

end

end Recipe
end RelationSearch.Script
