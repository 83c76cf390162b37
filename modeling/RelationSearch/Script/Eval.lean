import RelationSearch.Script.Expr
import RelationSearch.Script.Session

/-!
# Evaluating callback expressions

Operands are evaluated from left to right. A callback fails when an operation meets a value of a wrong
kind, when it divides by zero, when it fails on purpose, and when it is malformed.
-/
namespace RelationSearch.Script

variable {ς κ : Type}

/-- The failure of an operation on a value of a wrong kind. -/
def typeError : Interrupt := .failed "type error"

/-- The failure of a malformed expression. -/
def badExpression : Interrupt := .failed "bad expression"

/-- The result of an operation on two integers. -/
def Arithmetic.apply (op : Arithmetic) (m n : Int64) : Except Interrupt Int64 :=
  match op with
  | .add => .ok (m + n)
  | .sub => .ok (m - n)
  | .mul => .ok (m * n)
  | .rem => if n = 0 then .error (.failed "mod by zero") else .ok (m % n)

/-- The result of a comparison of two integers. -/
def Ordered.apply (op : Ordered) (m n : Int64) : Bool :=
  match op with
  | .less => m < n
  | .atMost => m ≤ n

/-- The integer that a value is. -/
def toInt : Value → Except Interrupt Int64
  | .int n => .ok n
  | _ => .error typeError

/-- The size of a text or a list. -/
def sizeOf : Value → Except Interrupt Int64
  | .text s => .ok (Int64.ofNat s.utf8ByteSize)
  | .list items => .ok (Int64.ofNat items.length)
  | _ => .error typeError

/-- Two texts joined. -/
def joinTexts : Value → Value → Except Interrupt String
  | .text s, .text t => .ok (s ++ t)
  | _, _ => .error typeError

/-- An answer or an interrupt as a computation. -/
def ofExcept {α : Type} : Except Interrupt α → Doing κ α
  | .ok a => return a
  | .error why => throw why

/-- Adds one to a counter of the script. -/
def countUp (name : String) : Doing κ Nat := do
  let n := ((← session).counters.find? name).getD 0 + 1
  modifySession fun s => { s with counters := s.counters.insert name n }
  return n

/-- The value of the variable with a name. -/
def currentValue (id : String) : Doing κ Value := do
  match (← session).vars.find? id with
  | some x => return (← Act.value x).getD .unit
  | none => throw badExpression

namespace Expr

mutual

/-- Evaluates an expression on arguments. The way to perform a step is given. -/
def eval (perform : ς → Doing κ Unit) (args : List Value) : Expr ς → Doing κ Value
  | .value v => return v
  | .arg index =>
    match args[index]? with
    | some v => return v
    | none => throw badExpression
  | .args => return .list args
  | .distinct => return .bool (Value.allDistinct args)
  | .list items => return .list (← evalAll perform args items)
  | .arithmetic op a b => do
    let x ← ofExcept (toInt (← eval perform args a))
    let y ← ofExcept (toInt (← eval perform args b))
    return .int (← ofExcept (op.apply x y))
  | .negate a => do
    let x ← eval perform args a
    return .int (-(← ofExcept (toInt x)))
  | .abs a => do
    let x ← eval perform args a
    return .int (← ofExcept (toInt x)).abs
  | .ordered op a b => do
    let x ← ofExcept (toInt (← eval perform args a))
    let y ← ofExcept (toInt (← eval perform args b))
    return .bool (op.apply x y)
  | .equal a b => do
    let x ← eval perform args a
    let y ← eval perform args b
    return .bool (x == y)
  | .different a b => do
    let x ← eval perform args a
    let y ← eval perform args b
    return .bool (x != y)
  | .all tests => return .bool (← holdAll perform args tests)
  | .any tests => return .bool (← holdAny perform args tests)
  | .negation a => do return .bool (!(← eval perform args a).isTrue)
  | .choose test whenTrue otherwise => do
    if (← eval perform args test).isTrue then eval perform args whenTrue
    else eval perform args otherwise
  | .size a => do
    let x ← eval perform args a
    return .int (← ofExcept (sizeOf x))
  | .concat a b => do
    let x ← eval perform args a
    let y ← eval perform args b
    return .text (← ofExcept (joinTexts x y))
  | .image a => do return .text (← eval perform args a).image
  | .current id => currentValue id
  | .count name => do return .int (Int64.ofNat (← countUp name))
  | .tap name a => do
    log (.tap name (args.map Value.image))
    eval perform args a
  | .perform steps a => do
    steps.forM perform
    eval perform args a
  | .fail message => throw (.failed message)
  | .malformed => throw badExpression

/-- Evaluates expressions one after the other. -/
def evalAll (perform : ς → Doing κ Unit) (args : List Value) : List (Expr ς) → Doing κ (List Value)
  | [] => return []
  | e :: es => do
    let v ← eval perform args e
    return v :: (← evalAll perform args es)

/-- Whether expressions are all true, tried one after the other up to the first that is not. -/
def holdAll (perform : ς → Doing κ Unit) (args : List Value) : List (Expr ς) → Doing κ Bool
  | [] => return true
  | e :: es => do
    if (← eval perform args e).isTrue then holdAll perform args es else return false

/-- Whether one of some expressions is true, tried one after the other up to the first that is. -/
def holdAny (perform : ς → Doing κ Unit) (args : List Value) : List (Expr ς) → Doing κ Bool
  | [] => return false
  | e :: es => do
    if (← eval perform args e).isTrue then return true else holdAny perform args es

end

end Expr
end RelationSearch.Script
