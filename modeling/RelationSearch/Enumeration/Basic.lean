import RelationSearch.Enumeration.Settings
import RelationSearch.Relation.Traversal
import RelationSearch.Search.Solve
import RelationSearch.Solution

/-!
# Enumerating solutions

An enumeration drives a relation: it solves again and again, captures the variables after each
success, and hands the solutions that a filter accepts to a visitor. It ends when the relation is
exhausted, when enough solutions were accepted, or when the visitor asks to stop, and it leaves the
relation where the last solve put it.

An interrupt of a solve ends the enumeration and is reported together with what was found before it.
A failure of the filter or the visitor is the client's own and passes through.
-/
namespace RelationSearch

variable {κ σ α : Type}

/-- What an enumeration counts. The counts are not bounded; that 64 bits would overflow after 2^64
solutions is left out. -/
structure Tally where
  /-- The solutions that were accepted. -/
  solutions : Nat := 0
  /-- The solutions that the filter refused. -/
  rejected : Nat := 0
  /-- The calls of `solve` on the root. -/
  solveCalls : Nat := 0
  /-- Whether the enumeration ended before the relation was exhausted. -/
  stoppedEarly : Bool := false
  deriving Repr, DecidableEq, Inhabited

/-- What came of an enumeration. -/
structure Enumeration (α : Type) where
  /-- What the visitor gathered. -/
  found : α
  tally : Tally
  /-- Why a solve was interrupted, if one was. -/
  interrupt : Option Interrupt

/-- What a client does with the solutions of an enumeration. -/
structure Client (κ σ α : Type) where
  /-- Whether a solution counts. -/
  accepts : Solution → Act κ σ Bool
  /-- Takes an accepted solution, with what was gathered before. Answers what is gathered now, and
  whether to go on. -/
  visit : α → Solution → Act κ σ (α × Bool)

/-- Whether as many solutions were accepted as the settings ask for. -/
def Settings.isReached (settings : Settings) (tally : Tally) : Bool :=
  settings.maxSolutions.any (· ≤ tally.solutions)

namespace Relation

/-- Makes a relation ready to be driven. Answers its variables by number. -/
def prepare (settings : Settings) (root : Relation κ) : Act κ σ (List Var) := do
  if settings.resetBeforeSolve then root.reset
  return (← root.vars).mergeSort fun x y => x.id ≤ y.id

/-- Drives a relation from where it is. The fuel bounds the number of solves. -/
def drive (call : Caller κ σ) (limit : Nat) (settings : Settings) (client : Client κ σ α)
    (root : Relation κ) (vars : List Var) : Nat → α → Tally → Act κ σ (Enumeration α)
  | 0, found, tally => return ⟨found, tally, some .outOfFuel⟩
  | fuel + 1, found, tally => do
    if settings.isReached tally then return ⟨found, { tally with stoppedEarly := true }, none⟩
    let tally := { tally with solveCalls := tally.solveCalls + 1 }
    match ← Act.attempt (root.solve call limit) with
    | .error why => return ⟨found, tally, some why⟩
    | .ok false => return ⟨found, tally, none⟩
    | .ok true =>
      let solution := Solution.capture (← get) vars
      if ← client.accepts solution then
        let tally := { tally with solutions := tally.solutions + 1 }
        if settings.logSolutions then
          Act.record fun _ => .solution tally.solutions solution.image
        match ← client.visit found solution with
        | (found, true) => drive call limit settings client root vars fuel found tally
        | (found, false) => return ⟨found, { tally with stoppedEarly := true }, none⟩
      else
        drive call limit settings client root vars fuel found
          { tally with rejected := tally.rejected + 1 }

/-- Enumerates the solutions of a relation. -/
def enumerate (call : Caller κ σ) (fuel : Nat) (settings : Settings) (client : Client κ σ α)
    (start : α) (root : Relation κ) : Act κ σ (Enumeration α) := do
  let vars ← root.prepare settings
  let result ← drive call fuel settings client root vars fuel start {}
  if result.interrupt.isNone then
    Act.record fun _ =>
      .finished result.tally.solutions result.tally.rejected result.tally.stoppedEarly
  return result

/-- The client that takes every solution. -/
def collector : Client κ σ (Array Solution) where
  accepts _ := return true
  visit found solution := return (found.push solution, true)

/-- All further solutions of a relation. -/
def collect (call : Caller κ σ) (fuel : Nat) (settings : Settings) (root : Relation κ) :
    Act κ σ (List Solution) := do
  let result ← root.enumerate call fuel settings collector #[]
  match result.interrupt with
  | some why => throw why
  | none => return result.found.toList

/-- The next solution of a relation, if there is one. -/
def first? (call : Caller κ σ) (fuel : Nat) (settings : Settings) (root : Relation κ) :
    Act κ σ (Option Solution) := do
  let vars ← root.prepare settings
  if ← root.solve call fuel then
    let solution := Solution.capture (← get) vars
    Act.record fun _ => .firstSolution solution.image
    return some solution
  else
    Act.record fun w => .noSolution (w.image root)
    return none

end Relation
end RelationSearch
