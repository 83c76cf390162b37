/-!
# Decimal constants

Constants of floating-point arithmetic, with its special values. Scripts only write, compare and show
them, so a constant is kept as its decimal digits.

Equality is that of floating-point arithmetic and not of the type: `equals` tells `nan` from
everything, itself included, and does not tell the two zeros apart.
-/
namespace RelationSearch

/-- A decimal constant. `finite negative digits scale` is `± digits / 10 ^ scale`. -/
inductive Decimal
  /-- The result of an undefined operation. -/
  | nan
  /-- An infinity. -/
  | infinite (negative : Bool)
  /-- A number with finitely many digits. -/
  | finite (negative : Bool) (digits scale : Nat)
  deriving Repr, DecidableEq, Inhabited

namespace Decimal

/-- Drops the zeros at the end of `digits / 10 ^ scale`, which leaves the least scale. -/
def trim (digits : Nat) : Nat → Nat × Nat
  | 0 => (digits, 0)
  | scale + 1 => if digits % 10 = 0 then trim (digits / 10) scale else (digits, scale + 1)

/-- The constant with the given digits, in the form with the least scale. -/
def ofDigits (negative : Bool) (digits scale : Nat) : Decimal :=
  let (digits, scale) := trim digits scale
  .finite negative digits scale

/-- Floating-point equality. -/
def equals : Decimal → Decimal → Bool
  | .infinite s, .infinite t => s == t
  | .finite s m e, .finite t n f => m == n && e == f && (s == t || m == 0)
  | _, _ => false

@[simp] theorem equals_nan_left (x : Decimal) : equals .nan x = false := by
  cases x <;> rfl

@[simp] theorem equals_nan_right (x : Decimal) : equals x .nan = false := by
  cases x <;> rfl

/-- The two zeros are equal. -/
theorem equals_zeros : equals (.finite true 0 0) (.finite false 0 0) = true := rfl

theorem equals_comm (x y : Decimal) : equals x y = equals y x := by
  cases x <;> cases y <;> grind [equals]

/-- A digit's value. -/
def digit? (c : Char) : Option Nat :=
  if c.isDigit then some (c.toNat - '0'.toNat) else none

/-- The number that a nonempty row of digits spells. -/
def digits? (cs : List Char) : Option Nat :=
  if cs.isEmpty then none
  else cs.foldlM (fun total c => (digit? c).map (10 * total + ·)) 0

/-- Reads digits with an optional fraction. -/
def unsigned? (negative : Bool) (text : String) : Option Decimal :=
  match text.splitOn "." with
  | [whole] => (digits? whole.toList).map fun m => ofDigits negative m 0
  | [whole, fraction] => do
    let _ ← digits? whole.toList
    let _ ← digits? fraction.toList
    let m ← digits? (whole ++ fraction).toList
    return ofDigits negative m fraction.length
  | _ => none

/-- Reads a constant: `NaN`, `inf`, or digits with an optional fraction, the last two with an
optional minus sign. -/
def ofText? (text : String) : Option Decimal :=
  match text with
  | "NaN" => some .nan
  | "inf" => some (.infinite false)
  | "-inf" => some (.infinite true)
  | _ =>
    match text.toList with
    | '-' :: rest => unsigned? true (String.ofList rest)
    | _ => unsigned? false text

/-- The sign in front of an image. -/
def sign (negative : Bool) : String :=
  if negative then "-" else ""

/-- Shows a constant. A number always has a point and at least one digit on each side of it. -/
def image : Decimal → String
  | .nan => "NaN"
  | .infinite negative => sign negative ++ "inf"
  | .finite negative digits scale =>
    let unit := Nat.pow 10 scale
    let whole := toString (digits / unit)
    let fraction := toString (digits % unit)
    let padding := String.ofList (List.replicate (scale - fraction.length) '0')
    sign negative ++ whole ++ "." ++ (if scale = 0 then "0" else padding ++ fraction)

end Decimal
end RelationSearch
