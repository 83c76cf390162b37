import RelationSearch.Proofs.AsBuilt
import RelationSearch.Proofs.Course

/-! # An exhausted search leaves no trace

Once the calls on a graph have come to `false`, and none of them was interrupted, every variable shows the
value and the watches that it showed before the first call, although nobody has reset the graph
(`Relation.exhausted_search_leaves_no_trace`).  So a client that offers values to the variables gets the
replies that it would have got before (`Agree.bind`).

The graph may share nodes, but not between the sides of a conjunction; the variables may be bound
before, and may carry watches of other graphs; the callbacks may keep a state of their own.
-/
namespace RelationSearch

open Act RelationSearch.Relation

variable {κ σ : Type} {call : Caller κ σ} {root : Relation κ} {start w v : World κ σ}

/-! ## Offers -/

/-- The callbacks read and change nothing but a state of their own. -/
def Caller.Private (call : Caller κ σ) : Prop := ∀ k args, Act.Private (call k args)

theorem Function.callPrivate : Caller.Private (Function.call (σ := σ)) := by
  intro f args
  refine ⟨fun own => ((f args).mapError .failed, own), fun w => ?_⟩
  rw [Function.call_eq]
  cases f args <;> rfl

/-- The variables show the same, and the callbacks are in the same state. -/
structure Agree (w v : World κ σ) : Prop where
  value : ∀ x, v.value x = w.value x
  watches : ∀ x, (v.cell x).watches = (w.cell x).watches
  client : v.client = w.client

namespace Agree

theorem put (h : Agree w v) (x : Var) (u : Value) :
    Agree (w.modifyCell x (·.put u)) (v.modifyCell x (·.put u)) := by
  refine ⟨fun y => ?_, fun y => ?_, h.client⟩
  · rw [World.value, World.value, World.cell_modifyCell, World.cell_modifyCell]
    split
    · rfl
    · exact h.value y
  · rw [World.cell_modifyCell, World.cell_modifyCell]
    split <;> exact h.watches y

theorem value_relates (x : Var) :
    Relates Eq (Agree : World κ σ → World κ σ → Prop) (Act.value x) (Act.value x) :=
  fun _ _ h => .ok (h.value x).symm h

variable (secret : call.Private)
include secret

theorem callback (k : κ) (args : List Value) : Relates Eq Agree (call k args) (call k args) := by
  obtain ⟨own, runs⟩ := secret k args
  intro w v h
  have after (state : σ) : Agree { w with client := state } { v with client := state } :=
    ⟨h.value, h.watches, rfl⟩
  rw [runs, runs, h.client]
  rcases own w.client with ⟨_ | _, state⟩
  · exact .error (after state)
  · exact .ok rfl (after state)

theorem comparison (c : Comparison κ) (a b : Value) :
    Relates Eq Agree (c.holds call a b) (c.holds call a b) := by
  cases c with
  | equality => exact .pure rfl
  | custom k => exact (callback secret k [a, b]).bind fun _ _ same => .pure (congrArg _ same)

theorem acceptedBy (u : Value) (watches : List (Watch κ)) :
    Relates Eq Agree (acceptedBy call u watches) (acceptedBy call u watches) := by
  induction watches with
  | nil => exact .pure rfl
  | cons watch rest ih =>
    refine .ite ((value_relates watch.other).bind fun held _ same => ?_) ih (.pure rfl)
    subst same
    cases held with
    | none => exact .pure rfl
    | some held =>
      dsimp only
      split <;> exact comparison secret _ _ _

/-- **Where the variables show the same, offers get the same replies.** -/
theorem bind (x : Var) (u : Value) : Relates Eq Agree (x.bind call u) (x.bind call u) := by
  refine .get_bind fun w v h => ?_
  rw [h.watches x]
  refine .ite (acceptedBy secret u _) ?_ ?_
  · exact (Relates.modify fun _ _ h => h.put x u).bind fun _ _ _ => .pure rfl
  · refine (Relates.modify fun w v h => ?_).bind fun _ _ _ => .pure rfl
    exact ⟨fun y => by simpa using h.value y, fun y => by simpa using h.watches y,
      by simpa using h.client⟩

end Agree

namespace Relation

/-- **A search that is exhausted leaves no trace on the variables**, without any reset: when calls that all
answered have come to `false`, every variable has the value and the watches it had before the first of
them, and takes or refuses any value as it did then. -/
theorem exhausted_search_leaves_no_trace (quiet : call.Quiet) (coherent : root.Coherent)
    (separated : root.Separated) (numbered : start.Numbered)
    (run : Course call root start (some false) w) :
    (∀ x, w.value x = start.value x ∧ (w.cell x).watches = (start.cell x).watches) ∧
      (call.Private → ∀ (own : σ) (x : Var) (v : Value),
        (x.bind call v).reply { w with client := own } =
          (x.bind call v).reply { start with client := own }) := by
  have restored := run.restored quiet coherent separated numbered
  refine ⟨fun x => ⟨restored.value x, (restored x).watches⟩, fun secret own x v => ?_⟩
  have agree : Agree { w with client := own } { start with client := own } :=
    ⟨fun y => (restored.value y).symm, fun y => (restored y).watches.symm, rfl⟩
  exact (Agree.bind secret x v _ _ agree).reply

theorem refusing_search_calls :
    let x : Var := ⟨0, "X"⟩
    let y : Var := ⟨1, "Y"⟩
    let root : Relation Function :=
      .and 0 (.compare 1 x y .equality) (.domain 2 x [.bool false, .bool true])
    let start := ({ client := () } : World Function Unit).modifyCell y (·.put (.bool true))
    ∃ found spent, root.solve Function.call 8 start = .ok true found ∧
      found.value x = some (.bool true) ∧ root.solve Function.call 8 found = .ok false spent :=
  ⟨_, _, rfl, rfl, rfl⟩

/-- A comparison that waits for a variable, with its other operand bound before.  It refuses the first
value of the domain and lets the second one through, and has left no watch when the search is
exhausted. -/
theorem refusing_search_leaves_no_trace :
    let x : Var := ⟨0, "X"⟩
    let y : Var := ⟨1, "Y"⟩
    let root : Relation Function :=
      .and 0 (.compare 1 x y .equality) (.domain 2 x [.bool false, .bool true])
    let start := ({ client := () } : World Function Unit).modifyCell y (·.put (.bool true))
    ∃ found spent, root.solve Function.call 8 start = .ok true found ∧
      found.value x = some (.bool true) ∧ root.solve Function.call 8 found = .ok false spent ∧
      (∀ z, spent.value z = start.value z ∧ (spent.cell z).watches = (start.cell z).watches) ∧
      ∀ (z : Var) (v : Value),
        (z.bind Function.call v).reply spent = (z.bind Function.call v).reply start := by
  intro x y root start
  obtain ⟨found, spent, first, bound, last⟩ := refusing_search_calls
  have ready : root.Ready start := Ready.blank root ()
  have blank : ({ client := () } : World Function Unit).Numbered := (World.Shows.blank ()).numbered
  have numbered : start.Numbered := blank.modifyCell y (blank y)
  have separated : root.Separated := ⟨by decide, trivial, trivial⟩
  have run : Course Function.call root start (some false) spent :=
    ((Course.start ready).solve 8 first).solve 8 last
  obtain ⟨shown, replies⟩ := exhausted_search_leaves_no_trace Function.quiet
    (.of_nodup (by decide)) separated numbered run
  exact ⟨found, spent, first, bound, last, shown, replies Function.callPrivate ()⟩

end Relation
end RelationSearch
