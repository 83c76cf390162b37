import RelationSearch.Proofs.Act

/-! # Fuel

Fuel bounds the loop of a conjunction and does nothing else: a call that comes back without running out of
fuel comes back in the same way, in the same world, with any more fuel (`Relation.solve_extends`).
-/
namespace RelationSearch

open Act

variable {κ σ α β : Type} {call : Caller κ σ} {r : Relation κ} {n fuel fuel' : Nat}

/-- Where the first computation does not run out of fuel, the second one is the same. -/
def Act.Extends (act act' : Act κ σ α) : Prop :=
  ∀ w, (∀ w', act w ≠ .error .outOfFuel w') → act' w = act w

namespace Act.Extends

variable {left left' right right' : Act κ σ Bool}

theorem refl (act : Act κ σ α) : Extends act act := fun _ _ => rfl

theorem bind {act act' : Act κ σ α} {next next' : α → Act κ σ β} (h : Extends act act')
    (hn : ∀ a, Extends (next a) (next' a)) : Extends (act >>= next) (act' >>= next') := by
  intro w enough
  rw [bind_apply] at enough ⊢
  -- If the first step ran out of fuel, so would the whole.
  have first : act' w = act w := h w fun w' ran => enough w' (by rw [ran])
  rw [bind_apply, first]
  cases ran : act w with
  | error why w₁ => rfl
  | ok a w₁ =>
    rw [ran] at enough
    exact hn a w₁ enough

theorem ite {yes yes' no no' : Act κ σ β} (h : Extends left left') (hy : Extends yes yes')
    (hn : Extends no no') :
    Extends (do if ← left then yes else no) (do if ← left' then yes' else no') :=
  .bind h fun b => by cases b <;> assumption

theorem answering (h : Extends left left') : Extends (answering r left) (answering r left') := by
  intro w enough
  cases idle : (w.node r.node).busy with
  | true => rw [answering_of_busy idle, answering_of_busy idle]
  | false =>
    rw [answering_of_idle idle] at enough ⊢
    have inner : left' (w.setBusy r.node true) = left (w.setBusy r.node true) :=
      h _ fun w' ran => enough (w'.setBusy r.node false) (by rw [ran])
    rw [answering_of_idle idle, inner]

theorem conjoin (hl : Extends left left') (hr : Extends right right') (rewind : Act κ σ Unit)
    (le : fuel ≤ fuel') :
    Extends (conjoin n left right rewind fuel) (conjoin n left' right' rewind fuel') := by
  induction fuel generalizing fuel' with
  | zero => exact fun w enough => absurd rfl (enough w)
  | succ fuel ih =>
    obtain ⟨more, rfl⟩ := Nat.exists_eq_add_of_le' (Nat.zero_lt_of_lt le)
    refine .ite hl (.bind (.refl _) fun _ => .ite hr (.refl _) ?_) (.refl _)
    exact .bind (.refl _) fun _ => ih (Nat.le_of_succ_le_succ le)

theorem advanceAnd (hl : Extends left left') (hr : Extends right right') (rewind : Act κ σ Unit)
    (le : fuel ≤ fuel') :
    Extends (advanceAnd fuel n left right rewind) (advanceAnd fuel' n left' right' rewind) := by
  have loop : Extends _ _ := conjoin (n := n) hl hr rewind le
  refine .bind (.refl _) fun p => ?_
  cases p with
  | exhausted => exact .refl _
  | retrying => exact .ite hr (.refl _) (.bind (.refl _) fun _ => loop)
  | _ => exact loop

theorem advanceOr (hl : Extends left left') (hr : Extends right right') (rewind : Act κ σ Unit) :
    Extends (advanceOr n left right rewind) (advanceOr n left' right' rewind) := by
  have later : Extends (disjoinRight n right) (disjoinRight n right') :=
    .ite hr (.refl _) (.refl _)
  refine .bind (.refl _) fun p => ?_
  cases p with
  | exhausted => exact .refl _
  | inRight => exact later
  | _ => exact .ite hl (.refl _) (.bind (.refl _) fun _ => .bind (.refl _) fun _ => later)

end Act.Extends

/-- **More fuel changes nothing** about a call that has enough. -/
theorem Relation.solve_extends (call : Caller κ σ) (le : fuel ≤ fuel') (r : Relation κ) :
    Extends (r.solve call fuel) (r.solve call fuel') := by
  induction r with
  | and n l r ihl ihr => exact .answering (.advanceAnd ihl ihr r.reset le)
  | or n l r ihl ihr => exact .answering (.advanceOr ihl ihr l.reset)
  | domain | convert | compare | predicate | always | never => exact .refl _

end RelationSearch
