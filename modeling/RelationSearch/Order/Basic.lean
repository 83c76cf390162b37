import RelationSearch.Order.Keystream

/-!
# The order of candidates

The order in which a domain offers its candidates: as declared, or shuffled by a seed. The same seed
always gives the same order, and no order adds, loses or repeats a candidate (`arrange_perm`): a number
that is drawn is in range (`draw_lt`), so that all a shuffle does is swap candidates.
-/
namespace RelationSearch

/-- An order of candidates. -/
inductive CandidateOrder
  /-- As they were declared. -/
  | declared
  /-- Shuffled by the stream of a seed. -/
  | shuffled (seed : UInt64)
  deriving Repr, DecidableEq, Inhabited

namespace CandidateOrder

/-- The words that are accepted when a number below `range` is drawn, so that every number is equally
likely: those `v` for which the low half of `v * range` is at most this. -/
def zone (range : Nat) : Nat := range * Nat.pow 2 (31 - Nat.log2 range) - 1

/-- The number of words that one draw may refuse before it settles for zero. More than half of all
words are accepted. -/
def patience : Nat := 4096

/-- Draws a number below `range` from the stream, starting at word `position`. Answers the number and
the position of the next draw. -/
def draw (key : List UInt32) (range : Nat) : Nat → Nat → Nat × Nat
  | 0, position => (0, position)
  | tries + 1, position =>
    let product := (Keystream.word key position).toNat * range
    if product % 0x100000000 ≤ zone range then (product / 0x100000000, position + 1)
    else draw key range tries (position + 1)

/-- A word is below 2^32, and so the high half of its product with a range is in range. -/
theorem mul_div_lt {range : Nat} (positive : 0 < range) (word : UInt32) :
    word.toNat * range / 0x100000000 < range := by
  have small : word.toNat < 0x100000000 := UInt32.toNat_lt _
  exact Nat.div_lt_of_lt_mul (Nat.mul_lt_mul_of_pos_right small positive)

theorem draw_lt {range : Nat} (positive : 0 < range) (key : List UInt32) (tries position : Nat) :
    (draw key range tries position).1 < range := by
  induction tries generalizing position with
  | zero => exact positive
  | succ tries ih =>
    rw [draw]
    split
    · exact mul_div_lt positive _
    · exact ih (position + 1)

/-- What is drawn for one of the places of a list is a place of the list. -/
theorem draw_lt_size {last size : Nat} (within : last + 1 < size) (key : List UInt32)
    (tries position : Nat) : (draw key (last + 2) tries position).1 < size :=
  Nat.lt_of_lt_of_le (draw_lt (Nat.succ_pos _) ..) within

/-- Swaps the item at each place, from the `last` down to the second, with one at or before it. -/
def shuffleFrom {α : Type} {size : Nat} (key : List UInt32) :
    (last : Nat) → last < size → Nat → Vector α size → Vector α size
  | 0, _, _, items => items
  | last + 1, within, position, items =>
    let drawn := draw key (last + 2) patience position
    shuffleFrom key last (Nat.lt_of_succ_lt within) drawn.2
      (items.swap (last + 1) drawn.1 within (draw_lt_size within ..))

/-- Candidates in the order in which they are offered. -/
def arrange {α : Type} (order : CandidateOrder) (items : List α) : List α :=
  match order, items with
  | .declared, items => items
  | .shuffled _, [] => []
  | .shuffled seed, item :: rest =>
    (shuffleFrom (Keystream.keyOfSeed seed) rest.length (Nat.lt_succ_self _) 0
      ⟨(item :: rest).toArray, rfl⟩).toList

/-- All that a shuffle does is swap items in range. -/
theorem shuffleFrom_perm {α : Type} {size last : Nat} (key : List UInt32) (within : last < size)
    (position : Nat) (items : Vector α size) :
    (shuffleFrom key last within position items).Perm items := by
  induction last generalizing position items with
  | zero => exact .refl items
  | succ last ih => exact (ih ..).trans (Vector.swap_perm within _)

/-- **An order is a permutation of the candidates.** -/
theorem arrange_perm {α : Type} (order : CandidateOrder) (items : List α) :
    (order.arrange items).Perm items := by
  match order, items with
  | .declared, items => exact .refl items
  | .shuffled _, [] => exact .refl []
  | .shuffled seed, item :: rest => exact (shuffleFrom_perm _ _ _ _).toList

end CandidateOrder
end RelationSearch
