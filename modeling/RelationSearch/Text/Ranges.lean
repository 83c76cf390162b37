/-!
# Ranges of code points

Properties of characters are kept as tables of closed ranges of code points.
-/
namespace RelationSearch.Text

/-- Closed ranges of code points, in increasing order. -/
abbrev Ranges := Array (Nat × Nat)

/-- Whether a character's code point lies in one of the ranges. -/
def Ranges.contains (table : Ranges) (c : Char) : Bool :=
  table.any fun range => range.1 ≤ c.toNat && c.toNat ≤ range.2

end RelationSearch.Text
