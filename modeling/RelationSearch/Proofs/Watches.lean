import RelationSearch.Proofs.Restoration

/-! # The watches of a comparison

A comparison that finds an operand unbound leaves a watch there (`World.deferred`) and notes it.
Dropping the noted watches again (`World.dropAll`) restores the variables, because the id of a new
watch is larger than those of all watches before it on the same variable.
-/
namespace RelationSearch

open Act

variable {κ σ : Type} {w w' start : World κ σ} {env : Env κ}

namespace World

/-- The world without the watches that a comparison noted. -/
def dropAll (w : World κ σ) : List (Var × Nat) → World κ σ
  | [] => w
  | (x, id) :: rest => (w.modifyCell x (·.dropWatch id)).dropAll rest

/-- The world after a comparison has left a watch at its operand `x`, if that is unbound. -/
def deferred (w : World κ σ) (x other : Var) (c : Comparison κ) (onLeft : Bool) : World κ σ :=
  match w.value x with
  | some _ => w
  | none => w.modifyCell x (·.addWatch other c onLeft)

/-- What the comparison notes about it. -/
def noteOf (w : World κ σ) (x : Var) : List (Var × Nat) :=
  match w.value x with
  | some _ => []
  | none => [(x, (w.cell x).nextWatch)]

end World

/-- Whether the watch of a variable is noted. -/
def listed (entries : List (Var × Nat)) (x : Var) (id : Nat) : Bool :=
  entries.any fun entry => entry.1.id == x.id && entry.2 == id

theorem listed_append (a b : List (Var × Nat)) (x : Var) (id : Nat) :
    listed (a ++ b) x id = (listed a x id || listed b x id) :=
  List.any_append

/-! ## Dropping watches -/

theorem dropWatches_apply (entries : List (Var × Nat)) (w : World κ σ) :
    dropWatches entries w = .ok ⟨⟩ (w.dropAll entries) := by
  induction entries generalizing w with
  | nil => rfl
  | cons entry rest ih =>
    rw [dropWatches, bind_apply, dropWatch_apply, World.dropAll]
    exact ih _

theorem World.cell_dropAll (w : World κ σ) (entries : List (Var × Nat)) (x : Var) :
    (w.dropAll entries).cell x =
      { w.cell x with
        watches := (w.cell x).watches.filter fun watch => !listed entries x watch.id } := by
  induction entries generalizing w with
  | nil =>
    have all : (w.cell x).watches.filter (fun watch => !listed [] x watch.id) = (w.cell x).watches :=
      List.filter_eq_self.mpr fun _ _ => rfl
    rw [all]
    rfl
  | cons entry rest ih =>
    rw [World.dropAll, ih]
    by_cases h : entry.1.id = x.id
    · rw [World.cell_modifyCell, if_pos h, Cell.dropWatch]
      simp only [List.filter_filter, listed, List.any_cons, h, beq_self_eq_true, Bool.true_and,
        Bool.not_or, bne]
      congr 2
      funext watch
      rw [Bool.and_comm, Bool.beq_comm]
    · have other : (entry.1.id == x.id) = false := beq_false_of_ne h
      rw [World.cell_modifyCell_of_ne _ _ h]
      simp only [listed, List.any_cons, other, Bool.false_and, Bool.false_or]

@[simp] theorem World.value_dropAll (w : World κ σ) (entries : List (Var × Nat)) (x : Var) :
    (w.dropAll entries).value x = w.value x := by
  rw [World.value, World.cell_dropAll]
  rfl

@[simp] theorem World.node_dropAll (w : World κ σ) (entries : List (Var × Nat)) (n : Nat) :
    (w.dropAll entries).node n = w.node n := by
  induction entries generalizing w with
  | nil => rfl
  | cons entry rest ih => rw [World.dropAll, ih, World.node_modifyCell]

@[simp] theorem World.client_dropAll (w : World κ σ) (entries : List (Var × Nat)) :
    (w.dropAll entries).client = w.client := by
  induction entries generalizing w with
  | nil => rfl
  | cons entry rest ih => exact ih _

theorem Restored.dropAll (h : Restored w w') (entries : List (Var × Nat)) :
    Restored (w.dropAll entries) (w'.dropAll entries) := by
  intro x
  rw [World.cell_dropAll, World.cell_dropAll]
  obtain ⟨value, watches, nextWatch, generation⟩ := h x
  exact ⟨value, by rw [watches], nextWatch, generation⟩

/-! ## Leaving watches -/

theorem deferOperand_apply (w : World κ σ) (x other : Var) (c : Comparison κ) (onLeft : Bool) :
    deferOperand (w.value x) x other c onLeft w =
      .ok (w.noteOf x) (w.deferred x other c onLeft) := by
  unfold deferOperand World.noteOf World.deferred
  cases w.value x with
  | some v => rfl
  | none => simp

theorem World.cell_deferred (w : World κ σ) (x other : Var) (c : Comparison κ) (onLeft : Bool)
    (z : Var) :
    (w.deferred x other c onLeft).cell z =
      if x.id = z.id ∧ w.value x = none then (w.cell z).addWatch other c onLeft else w.cell z := by
  unfold World.deferred
  cases w.value x with
  | some v => simp
  | none =>
    simp only [World.cell_modifyCell, and_true]

@[simp] theorem World.value_deferred (w : World κ σ) (x other : Var) (c : Comparison κ)
    (onLeft : Bool) (z : Var) : (w.deferred x other c onLeft).value z = w.value z := by
  rw [World.value, World.cell_deferred]
  split <;> rfl

@[simp] theorem World.node_deferred (w : World κ σ) (x other : Var) (c : Comparison κ)
    (onLeft : Bool) (n : Nat) : (w.deferred x other c onLeft).node n = w.node n := by
  unfold World.deferred
  split <;> rfl

@[simp] theorem World.client_deferred (w : World κ σ) (x other : Var) (c : Comparison κ)
    (onLeft : Bool) : (w.deferred x other c onLeft).client = w.client := by
  unfold World.deferred
  split <;> rfl

theorem World.nextWatch_deferred (w : World κ σ) (x other : Var) (c : Comparison κ) (onLeft : Bool)
    (z : Var) : (w.cell z).nextWatch ≤ ((w.deferred x other c onLeft).cell z).nextWatch := by
  rw [World.cell_deferred]
  split
  · exact Nat.le_succ _
  · exact Nat.le_refl _

theorem World.noted_deferred (w : World κ σ) (n : Nat) (p : Progress) (x other : Var)
    (c : Comparison κ) (onLeft : Bool) :
    (w.noted n p).deferred x other c onLeft = (w.deferred x other c onLeft).noted n p := by
  unfold World.deferred
  rw [World.value_noted]
  cases w.value x <;> rfl

/-- What is noted of an operand is the watch that is left there. -/
theorem listed_noteOf {x z : Var} {id : Nat} :
    listed (w.noteOf x) z id = true ↔
      w.value x = none ∧ x.id = z.id ∧ (w.cell z).nextWatch = id := by
  unfold World.noteOf
  cases w.value x with
  | some v => simp [listed]
  | none =>
    by_cases h : x.id = z.id
    · simp [listed, h, cell_congr w h]
    · simp [listed, h]

theorem World.Numbered.deferred (h : w.Numbered) (x other : Var) (c : Comparison κ)
    (onLeft : Bool) : (w.deferred x other c onLeft).Numbered := by
  unfold World.deferred
  cases w.value x with
  | some v => exact h
  | none => exact h.modifyCell x (Cell.numbered_addWatch (h x) other c onLeft)

/-- An unbound variable is given the duty it is asked for. -/
theorem World.duties_deferred (w : World κ σ) (x other : Var) (c : Comparison κ) (onLeft : Bool)
    {z : Var} (free : w.value z = none) :
    ((w.deferred x other c onLeft).cell z).watches.map Watch.duty =
      (w.cell z).watches.map Watch.duty ++
        if x.id = z.id then [{ other, comparison := c, onLeft }] else [] := by
  rw [World.cell_deferred]
  by_cases h : x.id = z.id
  · have here : w.value x = none := by rw [World.value, cell_congr w h]; exact free
    simp [h, here, Cell.addWatch, Watch.duty]
  · simp [h]

/-- A watch that was left last is dropped without a trace. -/
theorem Restored.dropAll_deferred {entries : List (Var × Nat)} (numbered : w.Numbered)
    (h : Restored start (w.dropAll entries)) (x other : Var) (c : Comparison κ) (onLeft : Bool) :
    Restored start ((w.deferred x other c onLeft).dropAll (entries ++ w.noteOf x)) := by
  refine h.trans fun z => ?_
  rw [World.cell_dropAll, World.cell_dropAll, World.cell_deferred]
  cases free : w.value x with
  | some v => simp [World.noteOf, free, Cell.Restored.refl]
  | none =>
    have noted (id : Nat) : listed (entries ++ w.noteOf x) z id =
        (listed entries z id || (x.id == z.id && (w.cell x).nextWatch == id)) := by
      rw [listed_append]
      simp [World.noteOf, free, listed]
    simp only [noted, and_true]
    by_cases hz : x.id = z.id
    · rw [if_pos hz]
      refine ⟨rfl, ?_, Nat.le_succ _, fun _ => rfl⟩
      -- The new watch is the only one with its id.
      have kept : ∀ watch ∈ (w.cell z).watches,
          (!(listed entries z watch.id || (x.id == z.id && (w.cell x).nextWatch == watch.id))) =
            !listed entries z watch.id := by
        intro watch hm
        have older := numbered z watch hm
        have ne : ((w.cell x).nextWatch == watch.id) = false := by
          rw [cell_congr w hz]
          exact beq_false_of_ne (by omega)
        rw [ne, Bool.and_false, Bool.or_false]
      rw [Cell.addWatch, List.filter_append, List.filter_congr kept]
      simp [cell_congr w hz, hz]
    · have other : (x.id == z.id) = false := beq_false_of_ne hz
      simp only [if_neg hz, other, Bool.false_and, Bool.or_false]
      exact .refl _

/-! ## The turn of a comparison -/

/-- The world after a comparison has left and noted watches at its unbound operands. -/
def World.watching (w : World κ σ) (n : Nat) (x y : Var) (c : Comparison κ) : World κ σ :=
  let v := w.noted n (.fired [])
  ((v.deferred x y c true).deferred y x c false).noted n
    (.fired (v.noteOf x ++ (v.deferred x y c true).noteOf y))

theorem World.client_watching (w : World κ σ) (n : Nat) (x y : Var) (c : Comparison κ) :
    (w.watching n x y c).client = w.client := by
  show (((w.noted n (.fired [])).deferred x y c true).deferred y x c false).client = w.client
  rw [World.client_deferred, World.client_deferred]
  rfl

variable {call : Caller κ σ} {n : Nat} {x y : Var} {c : Comparison κ}

theorem advanceCompare_of_fired {entries : List (Var × Nat)}
    (fired : (w.node n).progress = .fired entries) :
    advanceCompare call n x y c w = .ok false ((w.dropAll entries).noted n (.fired [])) := by
  rw [advanceCompare, bind_apply, progress_apply]
  simp only [fired, bind_apply, dropWatches_apply, setProgress_apply, pure_apply]

theorem advanceCompare_of_unfired (unfired : ∀ entries, (w.node n).progress ≠ .fired entries) :
    advanceCompare call n x y c w = match w.value x, w.value y with
      | some v, some u => c.holds call v u (w.noted n (.fired []))
      | _, _ => .ok true (w.watching n x y c) := by
  have run := deferOperand_apply (w.noted n (.fired [])) x y c true
  have run' := deferOperand_apply ((w.noted n (.fired [])).deferred x y c true) y x c false
  rw [World.value_deferred] at run'
  have turn : (do
      Act.setProgress n (.fired [])
      match ← Act.value x, ← Act.value y with
      | some v, some u => c.holds call v u
      | left, right =>
        let onLeft ← deferOperand left x y c true
        let onRight ← deferOperand right y x c false
        Act.setProgress n (.fired (onLeft ++ onRight))
        return true : Act κ σ Bool) w = match w.value x, w.value y with
      | some v, some u => c.holds call v u (w.noted n (.fired []))
      | _, _ => .ok true (w.watching n x y c) := by
    rw [bind_apply, setProgress_apply]
    simp only [bind_apply, value_apply]
    rw [World.value_noted] at run run' ⊢
    rw [World.value_noted]
    cases left : w.value x with
    | none =>
      rw [left] at run
      simp only [bind_apply, run, run', setProgress_apply, pure_apply]
      rfl
    | some v =>
      rw [left] at run
      cases right : w.value y with
      | none =>
        rw [right] at run'
        simp only [bind_apply, run, run', setProgress_apply, pure_apply]
        rfl
      | some u => rfl
  rw [advanceCompare, bind_apply, progress_apply]
  cases progress : (w.node n).progress with
  | fired entries => exact absurd progress (unfired entries)
  | _ => exact turn

end RelationSearch
