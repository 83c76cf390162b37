import RelationSearch.Value.Basic

/-!
# Callback expressions

The language in which a script writes the tests and conversions of its relations. An expression is
evaluated on the arguments of its callback. Apart from computing a value it can read variables, count,
write to the log, and perform steps of the script in the middle of a search.

The steps are of some type `ς`, so that steps in turn can hold expressions.
-/
namespace RelationSearch.Script

/-- An operation on two integers, modulo 2^64. -/
inductive Arithmetic
  | add
  | sub
  | mul
  /-- The remainder of division toward zero. -/
  | rem
  deriving Repr, DecidableEq, Inhabited

/-- A comparison of two integers. -/
inductive Ordered
  | less
  | atMost
  deriving Repr, DecidableEq, Inhabited

/-- A callback expression over steps of type `ς`. -/
inductive Expr (ς : Type)
  /-- A value that stands for itself. -/
  | value (v : Value)
  /-- An argument of the callback, counted from zero. -/
  | arg (index : Nat)
  /-- The list of all arguments. -/
  | args
  /-- Whether no two arguments are equal. -/
  | distinct
  | list (items : List (Expr ς))
  | arithmetic (op : Arithmetic) (a b : Expr ς)
  | negate (a : Expr ς)
  | abs (a : Expr ς)
  | ordered (op : Ordered) (a b : Expr ς)
  | equal (a b : Expr ς)
  | different (a b : Expr ς)
  /-- Whether all are true; none is evaluated after one that is not. -/
  | all (tests : List (Expr ς))
  /-- Whether some is true; none is evaluated after one that is. -/
  | any (tests : List (Expr ς))
  | negation (a : Expr ς)
  /-- One of two expressions. -/
  | choose (test whenTrue otherwise : Expr ς)
  /-- The bytes of a text or the items of a list. -/
  | size (a : Expr ς)
  /-- Two texts joined. -/
  | concat (a b : Expr ς)
  /-- The image of a value. -/
  | image (a : Expr ς)
  /-- The value of a variable, unit if it is unbound. -/
  | current (id : String)
  /-- Adds one to a counter and gives its new value. -/
  | count (name : String)
  /-- Logs the arguments under a name. -/
  | tap (name : String) (a : Expr ς)
  /-- Performs steps, then gives the value of the expression. -/
  | perform (steps : List ς) (a : Expr ς)
  /-- Fails with a message. -/
  | fail (message : String)
  /-- An expression that cannot be read. -/
  | malformed

instance {ς : Type} : Inhabited (Expr ς) := ⟨.malformed⟩

end RelationSearch.Script
