import RelationSearch.Relation.Image
import RelationSearch.Search.Binding

/-!
# Searching a leaf

One step of the search of each kind of leaf: advance to the next satisfying state, and report whether
there was one. Where a leaf pauses is noted before any callback runs, so a callback that fails leaves
the leaf as far along as it was.

`retract` undoes what a leaf did to its variables. It runs no callback.
-/
namespace RelationSearch

variable {κ σ : Type}

/-- Offers a domain's remaining values in order until the variable takes one. When none is left, the
variable is unbound, and so again whenever the exhausted domain is asked. -/
def offer (call : Caller κ σ) (n : Nat) (x : Var) : List Value → Act κ σ Bool
  | [] => do
    Act.setProgress n (.binding [])
    x.unbind
    return false
  | v :: rest => do
    Act.setProgress n (.binding rest)
    if ← x.bind call v then return true else offer call n x rest

/-- Advances a domain. A variable that is bound when the domain starts is only checked, once. -/
def advanceDomain (call : Caller κ σ) (n : Nat) (x : Var) (values : List Value) : Act κ σ Bool := do
  match ← Act.progress n with
  | .fresh =>
    match ← Act.value x with
    | some v =>
      Act.setProgress n .checked
      return values.contains v
    | none => offer call n x values
  | .binding rest => offer call n x rest
  | _ => return false

/-- Unbinds the target of a conversion if its binding is the conversion's work. -/
def releaseTarget (n : Nat) (y : Var) : Act κ σ Unit := do
  match ← Act.progress n with
  | .applied generation true =>
    y.unbind
    Act.setProgress n (.applied generation false)
  | _ => return ()

/-- Runs a conversion on its source's value and puts the result into the target, or checks it against
a value that something else put there. -/
def applyConversion (call : Caller κ σ) (n : Nat) (y : Var) (conversion : κ) (v : Value)
    (generation : Nat) (ownsTarget : Bool) : Act κ σ Bool := do
  Act.setProgress n (.applied generation ownsTarget)
  let result ← call conversion [v]
  match ownsTarget, ← Act.value y with
  | false, some held => return held == result
  | _, _ =>
    if ← y.bind call result then
      Act.setProgress n (.applied generation true)
      return true
    else
      releaseTarget n y
      return false

/-- Advances a conversion: it runs once for each generation of its source. -/
def advanceConvert (call : Caller κ σ) (r : Relation κ) (n : Nat) (x y : Var) (conversion : κ) :
    Act κ σ Bool := do
  let source := (← get).cell x
  match source.value with
  | none => throw (.unbound x.name r.bareImage)
  | some v =>
    match ← Act.progress n with
    | .applied generation ownsTarget =>
      if generation = source.generation then
        releaseTarget n y
        return false
      else applyConversion call n y conversion v source.generation ownsTarget
    | _ => applyConversion call n y conversion v source.generation false

/-- Leaves a watch at the operand `x` of a comparison if it is unbound. Answers the entry to note. -/
def deferOperand (value : Option Value) (x other : Var) (comparison : Comparison κ)
    (onLeft : Bool) : Act κ σ (List (Var × Nat)) :=
  match value with
  | some _ => return []
  | none => do return [(x, ← x.addWatch other comparison onLeft)]

/-- Advances a comparison: it has one turn. Bound operands are compared at once; otherwise watches at
the unbound ones do it later, until the comparison is asked again or reset. -/
def advanceCompare (call : Caller κ σ) (n : Nat) (x y : Var) (comparison : Comparison κ) :
    Act κ σ Bool := do
  match ← Act.progress n with
  | .fired watches =>
    dropWatches watches
    Act.setProgress n (.fired [])
    return false
  | _ =>
    Act.setProgress n (.fired [])
    match ← Act.value x, ← Act.value y with
    | some v, some u => comparison.holds call v u
    | left, right =>
      let onLeft ← deferOperand left x y comparison true
      let onRight ← deferOperand right y x comparison false
      Act.setProgress n (.fired (onLeft ++ onRight))
      return true

/-- The values of some variables, or the first of them that is unbound. -/
def World.valuesOf (w : World κ σ) : List Var → Except Var (List Value)
  | [] => .ok []
  | x :: xs =>
    match w.value x with
    | none => .error x
    | some v => (w.valuesOf xs).map (v :: ·)

/-- Advances a predicate: it has one turn, and does not use it up on an unbound operand. -/
def advancePredicate (call : Caller κ σ) (r : Relation κ) (n : Nat) (operands : List Var)
    (test : κ) : Act κ σ Bool := do
  match ← Act.progress n with
  | .fired _ => return false
  | _ =>
    match (← get).valuesOf operands with
    | .error x => throw (.unbound x.name r.bareImage)
    | .ok values =>
      Act.setProgress n (.fired [])
      call.holds test values

/-- Advances the relation that holds once. -/
def advanceAlways (n : Nat) : Act κ σ Bool := do
  match ← Act.progress n with
  | .fired _ => return false
  | _ =>
    Act.setProgress n (.fired [])
    return true

/-- Undoes what a leaf did to its variables since it was fresh. -/
def retract : Relation κ → Act κ σ Unit
  | .domain n x _ => do
    match ← Act.progress n with
    | .binding _ => x.unbind
    | _ => return ()
  | .convert n _ y _ => releaseTarget n y
  | .compare n _ _ _ => do
    match ← Act.progress n with
    | .fired watches => dropWatches watches
    | _ => return ()
  | _ => return ()

end RelationSearch
