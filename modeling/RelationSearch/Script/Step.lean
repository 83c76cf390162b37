import RelationSearch.Order.Basic
import RelationSearch.Script.Expr

/-!
# Steps of a script

A script creates variables and relations under names of its own, drives them, and asks about them.
`Step` lists what it can do. Names are resolved when the step is performed.
-/
namespace RelationSearch.Script

/-- How a script describes a relation. `κ` is the type of callbacks. -/
inductive Recipe (κ : Type)
  /-- A relation that has a name in the script. -/
  | named (id : String)
  /-- A domain, its candidates in some order. -/
  | domain (var : String) (values : List Value) (order : CandidateOrder)
  | convert (source target : String) (conversion : κ)
  | compare (left right : String) (test : κ)
  | equals (left right : String)
  | predicate (operands : List String) (test : κ)
  | and (left right : Recipe κ)
  | or (left right : Recipe κ)
  | all (parts : List (Recipe κ))
  | any (parts : List (Recipe κ))
  | always
  | never
  | labelled (label : String) (recipe : Recipe κ)

namespace Recipe

variable {κ : Type}

/-- The integers from `lo` up to `hi`, which is left out. -/
def integers (lo hi : Int64) : List Value :=
  (List.range (hi.toInt - lo.toInt).toNat).map fun (i : Nat) => .int (Int64.ofInt (lo.toInt + i))

/-- The domain of the integers from `lo` up to `hi`, which is left out. -/
def range (var : String) (lo hi : Int64) : Recipe κ :=
  .domain var (integers lo hi) .declared

/-- The domain with one candidate. -/
def assign (var : String) (value : Value) : Recipe κ :=
  .domain var [value] .declared

end Recipe

/-- A step of a script. -/
inductive Step
  /-- Creates a variable. -/
  | createVar (id name : String)
  /-- Gives a variable another name. -/
  | alias (id var : String)
  | bind (var : String) (value : Value)
  | unbind (var : String)
  /-- Reports all about a variable. -/
  | read (var : String)
  /-- Shows a variable as a record. -/
  | varRecord (var : String)
  | snapshot (var : String)
  /-- Creates a relation, and gives up the one that had the name. -/
  | build (id : String) (recipe : Recipe (Expr Step))
  | label (rel text : String)
  | solve (rel : String)
  | reset (rel : String)
  /-- Gives a relation up. -/
  | cleanup (rel : String)
  /-- Solves until no solution is left, or so many were seen. -/
  | drain (rel : String) (max : Nat)
  | inspect (rel : String)
  | image (rel : String)
  | children (rel : String)
  | vars (rel : String)
  /-- Asks whether two names stand for one node. -/
  | same (rel other : String)
  | nodes (rel : String)
  | table (rel : String)
  /-- Looks for the next solution, under settings given as text, and may give it a name. -/
  | first (rel : String) (id settings : Option String)
  /-- Enumerates solutions. A filter is a variable and a test of its value; `each` is evaluated for
  every solution; the enumeration stops at the `stop`-th. -/
  | enumerate (rel : String) (stop : Option Nat) (filter : Option (String × Expr Step))
      (each : Option (Expr Step)) (id settings : Option String)
  | collect (rel : String) (settings : Option String)
  /-- Takes a solution from the present values of variables. -/
  | capture (id : String) (vars : List String)
  /-- Shows a solution. -/
  | solution (id : String)
  /-- Looks a variable up in a solution by its name. -/
  | lookupName (id name : String)
  /-- Looks a variable up in a solution. -/
  | lookupVar (id var : String)
  /-- A step that cannot be read. -/
  | unreadable

instance : Inhabited Step := ⟨.unreadable⟩

/-- The callbacks of a script. -/
abbrev Callback := Expr Step

end RelationSearch.Script
