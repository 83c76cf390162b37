import RelationSearch.Enumeration.Settings.Lexeme

/-!
# Reading settings

Settings are written in JSON, as an object with the settings by name or as an array with the settings
in order. Missing settings have their defaults, and unknown names are ignored together with their
values. The text is read from left to right and the first fault found is the one reported; so a wrong
value is reported even if the text after it is no JSON at all.
-/
namespace RelationSearch.SettingsText

/-! ## Skipping a value -/

mutual

/-- Skips a value. The fuel bounds the depth and the number of the parts. -/
def skipValue : Nat → Reader Unit
  | 0 => throw .malformed
  | fuel + 1 => do
    match ← nextLexeme with
    | none => throw .unfinished
    | some 'n' => expect ['n', 'u', 'l', 'l']
    | some 't' => expect ['t', 'r', 'u', 'e']
    | some 'f' => expect ['f', 'a', 'l', 's', 'e']
    | some '"' =>
      advance
      let _ ← string false
    | some '[' =>
      advance
      match ← nextLexeme with
      | some ']' => advance
      | none => throw .unfinished
      | _ => skipItems fuel
    | some '{' =>
      advance
      match ← nextLexeme with
      | some '}' => advance
      | none => throw .unfinished
      | _ => skipMembers fuel
    | some c => if c = '-' || c.isDigit then skipNumber else throw .malformed

/-- Skips the items of an array and its end. -/
def skipItems : Nat → Reader Unit
  | 0 => throw .malformed
  | fuel + 1 => do
    skipValue fuel
    match ← nextLexeme with
    | none => throw .unfinished
    | some ',' =>
      advance
      skipItems fuel
    | some ']' => advance
    | some _ => throw .malformed

/-- Skips the members of an object and its end. -/
def skipMembers : Nat → Reader Unit
  | 0 => throw .malformed
  | fuel + 1 => do
    match ← nextLexeme with
    | none => throw .unfinished
    | some '"' => advance
    | some _ => throw .malformed
    let _ ← string false
    match ← nextLexeme with
    | none => throw .unfinished
    | some ':' => advance
    | some _ => throw .malformed
    skipValue fuel
    match ← nextLexeme with
    | none => throw .unfinished
    | some ',' =>
      advance
      skipMembers fuel
    | some '}' => advance
    | some _ => throw .malformed

end

/-! ## The value of a setting -/

/-- Refuses a value of a wrong kind that starts with the given character. A scalar is read first, so
one that is no JSON is reported as such. -/
def unfitValue {α : Type} (c : Char) : Reader α := do
  match c with
  | 'n' => expect ['n', 'u', 'l', 'l']
  | 't' => expect ['t', 'r', 'u', 'e']
  | 'f' => expect ['f', 'a', 'l', 's', 'e']
  | '"' =>
    advance
    let _ ← string true
  | '[' | '{' => return ← throw .unfit
  | _ => if c = '-' || c.isDigit then let _ ← number else throw .malformed
  throw .unfit

/-- Reads `true` or `false`. -/
def flag : Reader Bool := do
  match ← nextLexeme with
  | none => throw .unfinished
  | some 't' =>
    expect ['t', 'r', 'u', 'e']
    return true
  | some 'f' =>
    expect ['f', 'a', 'l', 's', 'e']
    return false
  | some c => unfitValue c

/-- Reads `null` or a natural number of at most 64 bits. -/
def limit : Reader (Option Nat) := do
  match ← nextLexeme with
  | none => throw .unfinished
  | some 'n' =>
    expect ['n', 'u', 'l', 'l']
    return none
  | some c =>
    if c = '-' || c.isDigit then
      match ← number with
      | .natural n => return some n
      | .other => throw .unfit
    else unfitValue c

/-! ## Objects and arrays of settings -/

/-- The settings read so far. -/
structure Draft where
  maxSolutions : Option (Option Nat) := none
  resetBeforeSolve : Option Bool := none
  logSolutions : Option Bool := none

/-- The settings of a draft, with defaults for those not read. -/
def Draft.settings (draft : Draft) : Settings :=
  { maxSolutions := draft.maxSolutions.getD none
    resetBeforeSolve := draft.resetBeforeSolve.getD false
    logSolutions := draft.logSolutions.getD false }

/-- Reads the colon between a name and its value. -/
def colon : Reader Unit := do
  match ← nextLexeme with
  | none => throw .unfinished
  | some ':' => advance
  | some _ => throw .malformed

/-- Reads the value of a setting, unless the setting has one already. -/
def once {α : Type} (held : Option α) (value : Reader α) : Reader (Option α) := do
  if held.isSome then throw .unfit
  colon
  return some (← value)

/-- Reads the value of the setting with the given name. -/
def setting (draft : Draft) (name : String) : Reader Draft := do
  match name with
  | "max_solutions" => return { draft with maxSolutions := ← once draft.maxSolutions limit }
  | "reset_before_solve" =>
    return { draft with resetBeforeSolve := ← once draft.resetBeforeSolve flag }
  | "log_solutions" => return { draft with logSolutions := ← once draft.logSolutions flag }
  | _ =>
    colon
    skipValue (2 * (← get).length + 2)
    return draft

/-- Reads the members of a settings object, after its opening brace or a comma, and its end. -/
def members : Nat → Draft → Reader Draft
  | 0, _ => throw .malformed
  | fuel + 1, draft => do
    match ← nextLexeme with
    | none => throw .unfinished
    | some '"' => advance
    | some _ => throw .malformed
    let draft ← setting draft (← string true)
    match ← nextLexeme with
    | none => throw .unfinished
    | some ',' =>
      advance
      members fuel draft
    | some '}' =>
      advance
      return draft
    | some _ => throw .malformed

/-- Reads a settings object after its opening brace. -/
def object : Reader Draft := do
  match ← nextLexeme with
  | some '}' =>
    advance
    return {}
  | _ => members ((← get).length + 1) {}

/-- Reads the next item of an array, if there is one, and leaves the array's end unread. -/
def item? {α : Type} (first : Bool) (value : Reader α) : Reader (Option α) := do
  match ← nextLexeme with
  | none => throw .unfinished
  | some ']' => return none
  | some c =>
    if first then return some (← value)
    else if c = ',' then
      advance
      match ← nextLexeme with
      | none => throw .unfinished
      | some ']' => throw .malformed
      | some _ => return some (← value)
    else throw .malformed

/-- Reads a settings array after its opening bracket. -/
def array : Reader Draft := do
  let maxSolutions ← item? true limit
  let resetBeforeSolve ← item? false flag
  let logSolutions ← item? false flag
  match ← nextLexeme with
  | none => throw .unfinished
  | some ']' => advance
  | some _ => throw .malformed
  return { maxSolutions, resetBeforeSolve, logSolutions }

/-- Reads settings and the blanks around them. -/
def document : Reader Settings := do
  let draft ←
    match ← nextLexeme with
    | none => throw .unfinished
    | some '{' => do
      advance
      object
    | some '[' => do
      advance
      array
    | some c => unfitValue c
  match ← nextLexeme with
  | none => return draft.settings
  | some _ => throw .malformed

end SettingsText

/-- The settings that a text describes, or its first fault. -/
def Settings.ofText (text : String) : Except SettingsFault Settings :=
  (SettingsText.document.run text.toList).map Prod.fst

end RelationSearch
