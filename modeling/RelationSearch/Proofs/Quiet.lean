import RelationSearch.Proofs.Rewinding
import RelationSearch.Proofs.Watches

/-! # Quiet callbacks

A callback is quiet if it leaves the variables and the nodes alone (`Caller.Quiet`).  It may fail, and
it may keep a state of its own.  Functions of the arguments are quiet.

Under quiet callbacks an offer has three outcomes: the variable took the value, or its watches refused
it, or one of them failed.  Only the first changes a variable (`Var.bind_cases`).
-/
namespace RelationSearch

open Act

variable {κ σ α : Type} {call : Caller κ σ} {w w' : World κ σ}

/-- The variables and the nodes are the same. -/
structure Untouched (w w' : World κ σ) : Prop where
  cells : w'.cells = w.cells
  nodes : w'.nodes = w.nodes

theorem Untouched.steady : Steady (Untouched : World κ σ → World κ σ → Prop) where
  refl _ := ⟨rfl, rfl⟩
  trans h g := ⟨g.cells.trans h.cells, g.nodes.trans h.nodes⟩

theorem Untouched.cell (h : Untouched w w') (x : Var) : w'.cell x = w.cell x :=
  congrArg (Table.get · x.id) h.cells

theorem Untouched.value (h : Untouched w w') (x : Var) : w'.value x = w.value x :=
  congrArg Cell.value (h.cell x)

theorem Untouched.node (h : Untouched w w') (n : Nat) : w'.node n = w.node n :=
  congrArg (Table.get · n) h.nodes

theorem Untouched.record (w : World κ σ) (event : World κ σ → Event) :
    Untouched w (w.record event) := by
  unfold World.record
  split <;> exact ⟨rfl, rfl⟩

/-- Callbacks change no variable and no node. -/
def Caller.Quiet (call : Caller κ σ) : Prop := ∀ k args, Keeps Untouched (call k args)

theorem Caller.Quiet.sparesNodes (quiet : call.Quiet) : call.SparesNodes :=
  fun k args w => (quiet k args w).nodes

theorem Function.quiet : Caller.Quiet (Function.call (σ := σ)) := by
  intro f args w
  unfold Act.final
  rw [Function.call_eq]
  cases f args <;> exact ⟨rfl, rfl⟩

namespace Caller.Quiet

variable (quiet : call.Quiet)
include quiet

theorem holds (test : κ) (args : List Value) : Keeps Untouched (call.holds test args) :=
  .bind Untouched.steady (quiet _ _) fun _ => .pure Untouched.steady _

theorem comparison (c : Comparison κ) (u v : Value) : Keeps Untouched (c.holds call u v) := by
  cases c with
  | equality => exact .pure Untouched.steady _
  | custom test => exact quiet.holds _ _

theorem acceptedBy (v : Value) (watches : List (Watch κ)) :
    Keeps Untouched (acceptedBy call v watches) := by
  induction watches with
  | nil => exact .pure Untouched.steady _
  | cons watch rest ih =>
    refine .ite Untouched.steady (.bind Untouched.steady (.value Untouched.steady _) fun held => ?_)
      ih (.pure Untouched.steady _)
    split
    · exact .pure Untouched.steady _
    · split <;> exact quiet.comparison _ _ _

/-- The three outcomes of an offer. -/
theorem bind_cases (x : Var) (v : Value) (w : World κ σ) : ∃ w₁, Untouched w w₁ ∧
    (x.bind call v w = .ok true (w₁.modifyCell x (·.put v)) ∨ x.bind call v w = .ok false w₁ ∨
      ∃ why, x.bind call v w = .error why w₁) := by
  have asked := quiet.acceptedBy v (w.cell x).watches w
  simp only [Var.bind, bind_apply, get_apply]
  cases ran : RelationSearch.acceptedBy call v (w.cell x).watches w with
  | error why w₁ => exact ⟨w₁, final_of_error ran ▸ asked, .inr (.inr ⟨why, rfl⟩)⟩
  | ok accepted w₁ =>
    have untouched := final_of_ok ran ▸ asked
    cases accepted with
    | true => exact ⟨w₁, untouched, .inl rfl⟩
    | false =>
      exact ⟨_, Untouched.steady.trans untouched (.record w₁ fun _ => .rejected x.name v.image),
        .inr (.inl rfl)⟩

end Caller.Quiet

end RelationSearch
