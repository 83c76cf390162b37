import RelationSearch.Text.Quoted
import RelationSearch.Value.Decimal

/-!
# Values

What a variable can hold. Values are compared by kind and content; the comparison `==` is the one
that candidates, conversions and `equals` relations use, so a constant that is not a number is unequal
to itself, also inside a list.
-/
namespace RelationSearch

/-- A value of a variable. -/
inductive Value
  /-- The only value of its kind. -/
  | unit
  | bool (b : Bool)
  /-- A 64-bit integer. -/
  | int (n : Int64)
  | text (s : String)
  | list (items : List Value)
  /-- A constant of floating-point arithmetic. -/
  | decimal (x : Decimal)
  /-- A name that stands for itself. -/
  | symbol (name : String)
  deriving Inhabited

namespace Value

mutual

/-- Whether two values are of one kind and hold equal contents. -/
def equals : Value → Value → Bool
  | .unit, .unit => true
  | .bool a, .bool b => a == b
  | .int a, .int b => a == b
  | .text a, .text b => a == b
  | .list as, .list bs => equalLists as bs
  | .decimal a, .decimal b => a.equals b
  | .symbol a, .symbol b => a == b
  | _, _ => false

/-- Whether two lists have equal items in equal places. -/
def equalLists : List Value → List Value → Bool
  | [], [] => true
  | a :: as, b :: bs => equals a b && equalLists as bs
  | _, _ => false

end

instance : BEq Value := ⟨equals⟩

mutual

/-- The text that shows a value. -/
def image : Value → String
  | .unit => "()"
  | .bool b => if b then "true" else "false"
  | .int n => toString n
  | .text s => Text.quoted s
  | .list items => "[" ++ String.intercalate ", " (images items) ++ "]"
  | .decimal x => x.image
  | .symbol name => name

/-- The images of a list's items. -/
def images : List Value → List String
  | [] => []
  | v :: vs => image v :: images vs

end

@[simp] theorem images_eq_map (vs : List Value) : images vs = vs.map image := by
  induction vs with
  | nil => rfl
  | cons v vs ih => simp [images, ih]

/-- A test holds when it answers exactly `true`. -/
def isTrue : Value → Bool
  | .bool b => b
  | _ => false

/-- Whether no two values of a list are equal. -/
def allDistinct : List Value → Bool
  | [] => true
  | v :: vs => !vs.contains v && allDistinct vs

end Value
end RelationSearch
