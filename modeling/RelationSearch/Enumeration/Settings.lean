/-!
# Settings of an enumeration

What a client can ask of an enumeration, and what can be wrong with a text that should hold settings.
-/
namespace RelationSearch

/-- Settings of an enumeration. The defaults ask for nothing special. -/
structure Settings where
  /-- The number of accepted solutions after which the enumeration stops. -/
  maxSolutions : Option Nat := none
  /-- Whether the root is reset before it is driven. -/
  resetBeforeSolve : Bool := false
  /-- Whether every accepted solution is reported as an event. -/
  logSolutions : Bool := false
  deriving Repr, DecidableEq, Inhabited

/-- What is wrong with a settings text. -/
inductive SettingsFault
  /-- The text is not JSON. -/
  | malformed
  /-- The text ends too soon. -/
  | unfinished
  /-- The text is JSON as far as it was read, but does not describe settings. -/
  | unfit
  deriving Repr, DecidableEq, Inhabited

end RelationSearch
