import RelationSearch.Enumeration.Basic
import RelationSearch.Relation.Build

/-!
# Relations over functions

The simplest callbacks: functions of their arguments, which may fail. They touch nothing, so a search
over them needs no client state.
-/
namespace RelationSearch

/-- A callback that only computes. -/
abbrev Function := List Value → Except String Value

namespace Function

/-- The function that tells whether a test holds. -/
def ofTest (test : List Value → Bool) : Function := fun args => .ok (.bool (test args))

/-- The function that cannot fail. -/
def total (f : List Value → Value) : Function := fun args => .ok (f args)

/-- Runs a function as a callback. -/
def call {σ : Type} : Caller Function σ := fun f args =>
  match f args with
  | .ok v => return v
  | .error message => throw (.failed message)

end Function

/-- The fuel with which a worked problem is searched. -/
def ampleFuel : Nat := 0x1000000000000000

/-- A computation on a fresh world, for callbacks that are functions. -/
def inFreshWorld {α : Type} (act : Act Function Unit α) : Except Interrupt α :=
  match act { client := () } with
  | .ok a _ => .ok a
  | .error why _ => .error why

/-- What came of searching a worked problem. -/
structure Outcome where
  /-- The image of the relation before the search. -/
  image : String
  solutions : List Solution
  tally : Tally
  /-- How often the root was driven. -/
  counters : Counters

/-- Enumerates all solutions of a relation, at most `limit` many. -/
def Relation.outcome (root : Relation Function) (limit : Option Nat) : Act Function Unit Outcome := do
  let image := (← get).image root
  let result ← root.enumerate Function.call ampleFuel { maxSolutions := limit } Relation.collector #[]
  if let some why := result.interrupt then throw why
  return {
    image
    solutions := result.found.toList
    tally := result.tally
    counters := ((← get).node root.node).counters }

end RelationSearch
