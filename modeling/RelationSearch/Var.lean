/-!
# Logic variables

A handle on a variable. The cell that holds its value belongs to the world (`Store.World`); the handle
says which cell, and under which name it is shown.
-/
namespace RelationSearch

/-- A handle on a logic variable. Variables are told apart by number; names need not differ. -/
structure Var where
  /-- The number of the variable's cell. Numbers count up from zero in creation order. -/
  id : Nat
  /-- The name used in images and messages. -/
  name : String
  deriving DecidableEq, Repr, Inhabited

end RelationSearch
