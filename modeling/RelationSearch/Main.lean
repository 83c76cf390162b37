import RelationSearch.Puzzles.Houses

/-!
# The houses command

Reads the settings file that the arguments name, prints what the puzzle's command answers, and ends
with its exit code.
-/
open RelationSearch

/-- The text of a file, if it can be read. -/
def readText? (path : String) : IO (Option String) := do
  try
    return some (← IO.FS.readFile path)
  catch _ =>
    return none

/-- Runs the command on the given arguments. -/
def main (args : List String) : IO UInt32 := do
  let text ←
    match Houses.settingsPath? args with
    | some path => readText? path
    | none => pure none
  let response := Houses.respond (fun _ => text) args
  for line in response.lines do
    IO.println line
  for line in response.complaints do
    IO.eprintln line
  return UInt32.ofNat response.exit
