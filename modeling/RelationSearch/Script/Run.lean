import RelationSearch.Enumeration.Settings.Reader
import RelationSearch.Script.Build
import RelationSearch.Script.Eval

/-!
# Running scripts

Every step has an answer: if what it does is interrupted, the answer says why, and what was done
before stays done. `run` performs the steps of a script in an empty world and reports, after each, its
answer, its log, and the state of all variables and named relations.

Steps run callbacks and callbacks perform steps. The knot is tied by the depth of this nesting:
`callback (depth + 1)` performs steps whose callbacks nest at most `depth` deep.
-/
namespace RelationSearch.Script

/-- The fuel of every search. -/
def searchFuel : Nat := 0x1000000000000000

/-- How deep callbacks may nest. -/
def callbackDepth : Nat := 0x40000000

variable {κ : Type}

/-- The handle with a name. -/
def handleNamed (name : String) : Try κ (Handle κ) := resolve Session.handles name

/-- The relation with a name. -/
def relationNamed (name : String) : Try κ (Relation κ) := do
  return (← handleNamed name).relation

/-- The settings that a text describes; without a text, the default ones. -/
def settingsOf : Option String → Except SettingsFault Settings
  | none => .ok {}
  | some text => Settings.ofText text

/-- The settings of a step, which fails if they have a fault. -/
def settingsFor (text : Option String) : Try κ Settings :=
  match settingsOf text with
  | .ok settings => return settings
  | .error fault => throw (.badSettings fault)

/-- Gives a solution a name, if there is one for it. -/
def remember (id : Option String) (s : Solution) : Doing κ Unit :=
  match id with
  | some id => modifySession fun state => { state with solutions := state.solutions.insert id s }
  | none => return ()

/-- Solves a relation until it is exhausted or interrupted or `left` more solutions were seen. An
interrupt between two solutions, when the variables are listed, ends the whole step. -/
def drain (call : Caller κ (Session κ)) (root : Relation κ) :
    (left : Nat) → Array String → Doing κ (Array String × Ending)
  | 0, seen => return (seen, .enough)
  | left + 1, seen => do
    match ← Act.attempt (root.solve call searchFuel) with
    | .error why => return (seen, .interrupted why)
    | .ok false => return (seen, .exhausted)
    | .ok true =>
      let vars ← root.vars
      drain call root left (seen.push (Solution.capture (← get) vars).image)

/-- What a step that enumerates does with the solutions. It keeps their images, and ends the
enumeration when it has `stop` of them. -/
def visitor (call : Caller κ (Session κ)) (stop : Option Nat) (filter : Option (Var × κ))
    (each : Option κ) (id : Option String) : Client κ (Session κ) (Array String) where
  accepts s :=
    match filter with
    | none => return true
    | some (x, test) =>
      match s.get? x with
      | none => return false
      | some v => call.holds test [v]
  visit seen s := do
    let seen := seen.push s.image
    remember id s
    if let some each := each then let _ ← call each []
    return (seen, stop != some seen.size)

/-- The answer to an enumeration. A violated contract is reported with the solutions seen before it,
any other interrupt alone. -/
def enumerationAnswer (result : Enumeration (Array String)) : Answer :=
  let seen := result.found.toList
  match result.interrupt with
  | none => .enumerated seen result.tally
  | some (.unbound x r) => .failedAfter seen (.interrupted (.unbound x r))
  | some (.reentrant label) => .failedAfter seen (.interrupted (.reentrant label))
  | some why => .failed (.interrupted why)

/-- Performs a step on variables. -/
def performOnVar : Step → Try κ Answer
  | .createVar id name => do
    let x ← doing (Var.create name)
    doing <| modifySession fun s => { s with vars := s.vars.insert id x }
    return .number x.id
  | .alias id var => do
    let x ← varNamed var
    doing <| modifySession fun s => { s with vars := s.vars.insert id x }
    return .nothing
  | .unbind var => do
    doing (← varNamed var).unbind
    return .nothing
  | .read var => do
    let x ← varNamed var
    let cell := (← get).cell x
    return .reading x cell.value cell.generation
  | .varRecord var => do
    let x ← varNamed var
    return .text ((← get).varRecord x)
  | .snapshot var => do
    let x ← varNamed var
    match (← get).value x with
    | some value => return .binding { var := x, value }
    | none => return .nothing
  | _ => throw .badStep

/-- Performs a step on relations that runs no callbacks. -/
def performOnRelation : Step → Try κ Answer
  | .label rel text => do
    let r ← doing ((← relationNamed rel).labelled text)
    return ((← get).node r.node).label.elim .nothing .text
  | .reset rel => do
    doing (← relationNamed rel).reset
    return .nothing
  | .cleanup rel => do
    let handle ← handleNamed rel
    doing do
      modifySession fun s => { s with handles := s.handles.erase rel }
      handle.relation.announceRelease
      part handle
    return .nothing
  | .inspect rel => do
    let r ← relationNamed rel
    return .report ((← get).report r)
  | .image rel => do
    let r ← relationNamed rel
    return .text ((← get).image r)
  | .children rel => do
    let parts ← doing (← relationNamed rel).children
    return .texts (parts.map (← get).image)
  | .vars rel => do
    let xs ← doing (← relationNamed rel).vars
    let w ← get
    return .vars (xs.map fun x => (x, (w.value x).isSome))
  | .same rel other => do
    let r ← relationNamed rel
    let s ← relationNamed other
    return .flag (r.node == s.node)
  | .nodes rel => do return .reports (← doing (← relationNamed rel).reports)
  | .table rel => do return .texts (← doing (← relationNamed rel).reportGrid)
  | step => performOnVar step

/-- Performs a step on solutions. -/
def performOnSolution : Step → Try κ Answer
  | .capture id vars => do
    let xs ← vars.mapM varNamed
    let s := Solution.capture (← get) xs
    doing (remember (some id) s)
    return .text s.image
  | .solution id => do return .solution (← resolve Session.solutions id)
  | .lookupName id name => do
    let s ← resolve Session.solutions id
    return (s.find? name).elim .nothing fun b => .text b.image
  | .lookupVar id var => do
    let s ← resolve Session.solutions id
    let x ← varNamed var
    return .found (s.get? x)
  | step => performOnRelation step

/-- Performs a step. Callbacks are run by `call`. -/
def perform (call : Caller Callback (Session Callback)) : Step → Try Callback Answer
  | .bind var value => do
    let x ← varNamed var
    return .flag (← doing (x.bind call value))
  | .build id recipe => do
    let r ← recipe.build
    doing do
      let old := (← session).handles.find? id
      hold id r
      if let some handle := old then part handle
    return .text ((← get).kind r)
  | .solve rel => do
    let handle ← handleNamed rel
    return .flag (← doing <| withHandle handle fun r => r.solve call searchFuel)
  | .drain rel max => do
    let handle ← handleNamed rel
    let (seen, ending) ← doing <| withHandle handle fun r => drain call r max #[]
    return .drained seen.toList ending
  | .first rel id settings => do
    let handle ← handleNamed rel
    let settings ← settingsFor settings
    match ← doing <| withHandle handle fun r => r.first? call searchFuel settings with
    | none => return .nothing
    | some s =>
      doing (remember id s)
      return .text s.image
  | .enumerate rel stop filter each id settings => do
    let handle ← handleNamed rel
    let filter ← filter.mapM fun (var, test) => do return (← varNamed var, test)
    match settingsOf settings with
    | .error fault => return .failedAfter [] (.badSettings fault)
    | .ok settings =>
      let client := visitor call stop filter each id
      return enumerationAnswer
        (← doing <| withHandle handle fun r => r.enumerate call searchFuel settings client #[])
  | .collect rel settings => do
    let handle ← handleNamed rel
    let settings ← settingsFor settings
    let solutions ← doing <| withHandle handle fun r => r.collect call searchFuel settings
    return .texts (solutions.map Solution.image)
  | step => performOnSolution step

/-- The answer to a step. -/
def answer (call : Caller Callback (Session Callback)) (step : Step) : Doing Callback Answer := fun w =>
  match perform call step w with
  | .ok a w => .ok a w
  | .error failure w => .ok (.failed failure) w

/-- Runs a callback whose steps run callbacks that nest at most `depth - 1` deep. -/
def callback : (depth : Nat) → Callback → List Value → Doing Callback Value
  | 0, _, _ => throw .outOfFuel
  | depth + 1, e, args =>
    e.eval (fun step => do log (.step (← answer (callback depth) step))) args

/-- A whole script: the names of its first variables, whether it is traced, and its steps. -/
structure Program where
  vars : List String
  tracing : Bool
  steps : List Step

/-- What there is to see after a step. -/
structure StepReport where
  answer : Answer
  log : List LogEntry
  /-- The value of every variable, if it has one, and its generation. -/
  bindings : List (Option Value × Nat)
  /-- Every named relation. -/
  relations : List (String × NodeReport)

/-- The value and generation of every variable, by number. -/
def bindingsOf {σ : Type} (w : World κ σ) : List (Option Value × Nat) :=
  w.cells.entries.toList.map fun cell => (cell.value, cell.generation)

/-- Performs one step of a script and reports on it. -/
def reportOn (step : Step) : Doing Callback StepReport := do
  let answer ← answer (callback callbackDepth) step
  let log ← takeLog
  let w ← get
  return {
    answer, log
    bindings := bindingsOf w
    relations := w.client.handles.entries.map fun (id, handle) => (id, w.report handle.relation) }

/-- Creates the first variables of a script, each under its own name. -/
def declareVars (names : List String) : Doing Callback Unit :=
  names.forM fun name => do
    let x ← Var.create name
    modifySession fun s => { s with vars := s.vars.insert name x }

/-- The reports on the steps of a script. -/
def run (program : Program) : List StepReport :=
  let world : World Callback (Session Callback) := { tracing := program.tracing, client := {} }
  let steps := do
    declareVars program.vars
    program.steps.mapM reportOn
  match steps world with
  | .ok reports _ => reports
  | .error _ _ => []

end RelationSearch.Script
