import RelationSearch.Enumeration.Basic
import RelationSearch.Relation.Ownership
import RelationSearch.Relation.Report
import RelationSearch.Script.Registry

/-!
# Sessions

The state that a script keeps beside the world it searches: what its names stand for, its counters,
and the log of the step under way.

A script holds each of its relations by a handle, which is one owner. A step that drives a relation
uses its handle until the step ends. If a callback gives that very handle up meanwhile, the name is
free at once, but the owner goes only at the end of the step.
-/
namespace RelationSearch.Script

/-- Why a step has no answer. -/
inductive Failure
  /-- The step cannot be read, or names something that does not exist. -/
  | badStep
  /-- The settings text of the step has a fault. -/
  | badSettings (fault : SettingsFault)
  /-- What the step did was interrupted. -/
  | interrupted (why : Interrupt)
  deriving Repr, DecidableEq, Inhabited

/-- How a drained relation was left. -/
inductive Ending
  | exhausted
  /-- As many solutions were seen as asked for. -/
  | enough
  | interrupted (why : Interrupt)
  deriving Repr, DecidableEq, Inhabited

/-- The answer to a step. -/
inductive Answer
  /-- There is nothing to tell. -/
  | nothing
  | flag (b : Bool)
  | number (n : Nat)
  | text (s : String)
  | texts (items : List String)
  /-- All about a variable: its value, if it is bound, and its generation. -/
  | reading (x : Var) (value : Option Value) (generation : Nat)
  | binding (b : Binding)
  /-- Variables, and whether each is bound. -/
  | vars (xs : List (Var × Bool))
  | report (r : NodeReport)
  | reports (rs : List NodeReport)
  /-- The images of the solutions seen. -/
  | drained (seen : List String) (ending : Ending)
  | enumerated (seen : List String) (tally : Tally)
  | solution (s : Solution)
  /-- A variable's value in a solution, if it has one there. -/
  | found (value : Option Value)
  | failed (failure : Failure)
  /-- A failure after some solutions were seen. -/
  | failedAfter (seen : List String) (failure : Failure)
  deriving Inhabited

/-- An entry of the log. -/
inductive LogEntry
  /-- Something that happened while the world was traced. -/
  | event (e : Event)
  /-- A callback was run, with arguments that had these images. -/
  | tap (name : String) (args : List String)
  /-- A callback performed a step. -/
  | step (answer : Answer)
  deriving Inhabited

/-- A handle on a relation. -/
structure Handle (κ : Type) where
  /-- Tells handles apart. -/
  serial : Nat
  relation : Relation κ

/-- The state of a script. -/
structure Session (κ : Type) where
  vars : Registry Var := {}
  handles : Registry (Handle κ) := {}
  solutions : Registry Solution := {}
  counters : Registry Nat := {}
  /-- The serial number of the next handle. -/
  nextSerial : Nat := 0
  /-- The serial numbers of the handles in use, once for each use. -/
  inUse : List Nat := []
  /-- The handles that were given up while they were in use. -/
  parted : List (Handle κ) := []
  /-- What was logged since the log was last taken. -/
  log : Array LogEntry := #[]
  deriving Inhabited

/-- A computation of a script. -/
abbrev Doing (κ α : Type) := Act κ (Session κ) α

variable {κ α : Type}

/-- The state of the script. -/
def session : Doing κ (Session κ) := do return (← get).client

/-- Changes the state of the script. -/
def modifySession (f : Session κ → Session κ) : Doing κ Unit :=
  modify fun w => { w with client := f w.client }

/-- Moves the events recorded in the world to the log. -/
def takeEvents : Doing κ Unit :=
  modify fun w => { w with
    events := #[]
    client := { w.client with log := w.client.log ++ w.events.map .event } }

/-- Adds an entry to the log, after all that happened before. -/
def log (entry : LogEntry) : Doing κ Unit := do
  takeEvents
  modifySession fun s => { s with log := s.log.push entry }

/-- Takes the log. -/
def takeLog : Doing κ (List LogEntry) := do
  takeEvents
  let entries := (← session).log
  modifySession fun s => { s with log := #[] }
  return entries.toList

/-- Registers a relation that the script owns. -/
def hold (id : String) (r : Relation κ) : Doing κ Unit :=
  modifySession fun s => { s with
    handles := s.handles.insert id { serial := s.nextSerial, relation := r }
    nextSerial := s.nextSerial + 1 }

/-- Gives a handle up, at once or, if it is in use, at the end of its use. -/
def part (handle : Handle κ) : Doing κ Unit := do
  if handle.serial ∈ (← session).inUse then
    modifySession fun s => { s with parted := handle :: s.parted }
  else handle.relation.release

/-- Gives up the handles that were parted with and are no longer in use. -/
def settle (serial : Nat) : Doing κ Unit := do
  let s ← session
  if serial ∈ s.inUse then return ()
  let (due, rest) := s.parted.partition (·.serial == serial)
  modifySession fun s => { s with parted := rest }
  due.forM fun handle => handle.relation.release

/-- Uses a handle for a computation. -/
def withHandle (handle : Handle κ) (act : Relation κ → Doing κ α) : Doing κ α := do
  modifySession fun s => { s with inUse := handle.serial :: s.inUse }
  let outcome ← Act.attempt (act handle.relation)
  modifySession fun s => { s with inUse := s.inUse.erase handle.serial }
  settle handle.serial
  match outcome with
  | .ok a => return a
  | .error why => throw why

end RelationSearch.Script
