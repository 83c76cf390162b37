import RelationSearch.Enumeration.Settings.Reader
import RelationSearch.Puzzles.Colouring
import RelationSearch.Relation.Report
import RelationSearch.Text.Json

/-!
# Who lives in which house

Three neighbours live in differently coloured houses, which stand in a row: red, green, blue. Alice
does not live in the red house, and Bob lives directly to the right of Carol.

A command prints the relation and then its solutions. This module holds all of the command but reading
files and printing: the meaning of its arguments, and the lines it prints.
-/
namespace RelationSearch.Houses

/-- The people, in the order of their variables. -/
def people : List String := ["Alice", "Bob", "Carol"]

/-- The colours of the houses, from left to right. -/
def colours : List Colour := [.red, .green, .blue]

/-- The place of the house with a colour, counted from one. -/
def place (v : Value) : Value :=
  .int (Int64.ofNat ((colours.map Colour.value).idxOf v + 1))

/-- Converts a house to its place. -/
def placeOf : Function := .total fun
  | [house] => place house
  | _ => .unit

/-- Holds of three different houses. -/
def threeDistinct : Function := .ofTest Value.allDistinct

/-- Holds of every house but the red one. -/
def notRed : Function := .ofTest fun
  | [house] => house != Colour.red.value
  | _ => false

/-- Holds of two places of which the left one is the next after the right one. -/
def nextAfter : Function := .ofTest fun
  | [.int b, .int c] => b == c + 1
  | _ => false

/-- The comparison of the places of Bob and Carol. -/
def neighbourParts {σ : Type} : List Var → Act Function σ (List (Relation Function))
  | [_, bob, carol] => do
    let r ← Relation.create fun n => .compare n bob carol (.custom nextAfter)
    return [← r.labelled "bob_right_of_carol"]
  | _ => return []

/-- The domain of a person's house, and its link to the place. -/
def personParts {σ : Type} (house pos : Var) : Act Function σ (List (Relation Function)) := do
  let domain ← Relation.create fun n => .domain n house (colours.map Colour.value)
  let link ← Relation.create fun n => .convert n house pos placeOf
  return [domain, ← link.labelled "position"]

/-- The relation of the puzzle. `houses` and `places` are the variables of the people, in order. -/
def relation {σ : Type} (houses places : List Var) : Act Function σ (Relation Function) := do
  let parts ← (houses.zip places).mapM fun (house, pos) => personParts house pos
  let distinct ← Relation.create fun n => .predicate n houses threeDistinct
  let distinct ← distinct.labelled "distinct"
  let alice ← Relation.create fun n => .predicate n (houses.take 1) notRed
  let alice ← alice.labelled "alice_not_red"
  let neighbours ← neighbourParts places
  let root ← Relation.all (parts.flatten ++ [distinct, alice] ++ neighbours)
  root.labelled "house_puzzle"

/-! ## The command -/

/-- What the arguments of the command ask for. -/
structure Options where
  /-- Print every solution and not only the first. -/
  all : Bool := false
  /-- Print how often each relation was driven. -/
  stats : Bool := false
  /-- Print solutions as JSON. -/
  json : Bool := false
  /-- The file that holds settings. -/
  config : Option String := none
  deriving Repr, DecidableEq, Inhabited

/-- A path that may follow `--config` as an argument of its own. What starts with a hyphen is taken
for another option, but a single hyphen is a path. -/
def isPath (arg : String) : Bool :=
  !arg.isEmpty && (arg == "-" || !arg.startsWith "-")

/-- Reads the arguments after some options. No option may be given twice. Nothing may follow `--`. -/
def Options.read (options : Options) : List String → Option Options
  | [] => some options
  | "--" :: rest => if rest.isEmpty then some options else none
  | "--all" :: rest => if options.all then none else { options with all := true }.read rest
  | "--stats" :: rest => if options.stats then none else { options with stats := true }.read rest
  | "--json" :: rest => if options.json then none else { options with json := true }.read rest
  | "--config" :: path :: rest =>
    if options.config.isNone && isPath path then { options with config := some path }.read rest
    else none
  | arg :: rest =>
    if arg.startsWith "--config=" && options.config.isNone then
      let path := (arg.drop "--config=".length).toString
      if path.isEmpty then none else { options with config := some path }.read rest
    else none

/-- The options that the arguments of the command describe. -/
def Options.ofArgs? (args : List String) : Option Options := Options.read {} args

/-- The file that the arguments name, if they name one. -/
def settingsPath? (args : List String) : Option String :=
  (Options.ofArgs? args).bind Options.config

/-- What the command leaves behind. -/
structure Response where
  /-- The exit code. -/
  exit : Nat
  /-- The lines printed. -/
  lines : List String := []
  /-- The lines printed as errors. -/
  complaints : List String := []
  deriving Repr, DecidableEq, Inhabited

/-- The response to arguments that describe no options. -/
def misused : Response :=
  { exit := 2, complaints := ["usage: houses [--all] [--stats] [--json] [--config FILE]"] }

/-- The response when something went wrong. -/
def broken (complaint : String) : Response := { exit := 1, complaints := [complaint] }

/-- The line that shows a solution. -/
def solutionLine (options : Options) (s : Solution) : String :=
  if options.json then Text.jsonObject s.images else "Solution found: " ++ s.image

/-- The lines that the command prints under the given settings. -/
def print (options : Options) (settings : Settings) : Act Function Unit (List String) := do
  let houses ← people.mapM Var.create
  let places ← people.mapM fun person => Var.create (person ++ ".position")
  let root ← relation houses places
  let image := (← get).image root
  let settings := if options.all then settings else { settings with maxSolutions := some 1 }
  let solutions ← root.collect Function.call ampleFuel settings
  let found :=
    if solutions.isEmpty then ["No solution found."] else solutions.map (solutionLine options)
  if options.stats then return image :: found ++ (← root.reportGrid) ++ [""]
  else return image :: found

/-- The settings that the options name. `readFile` gives the text of a file, if it can be read. -/
def Options.settings (readFile : String → Option String) (options : Options) :
    Except String Settings :=
  match options.config with
  | none => .ok {}
  | some path =>
    match (readFile path).map Settings.ofText with
    | none => .error ("cannot read " ++ path)
    | some (.error _) => .error "invalid solver configuration"
    | some (.ok settings) => .ok settings

/-- Runs the command. `readFile` gives the text of a file, if it can be read. -/
def respond (readFile : String → Option String) (args : List String) : Response :=
  match Options.ofArgs? args with
  | none => misused
  | some options =>
    match options.settings readFile with
    | .error complaint => broken complaint
    | .ok settings =>
      match inFreshWorld (print options settings) with
      | .ok lines => { exit := 0, lines }
      | .error why => broken why.message

end RelationSearch.Houses
