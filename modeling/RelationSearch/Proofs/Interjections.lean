import RelationSearch.Proofs.Reentry

/-! # Enumerations inside a search

A callback may ask for the solutions of a relation while that relation is being solved.  To *solve* it is
refused as re-entrant.  An enumeration does not come to that: before it solves the relation it resets it,
or walks through it for its variables, and either way it is interrupted as busy
(`Inquiry.make_of_busy`).  Like the refusal, this leaves everything as it was.

So a search does not notice such inquiries.  This is said by a run in which every callback first makes
all the inquiries it likes of the relations on the chain (`Act.interject`), and raises an alarm if one of them
ends otherwise: it is the same run.
-/
namespace RelationSearch

open Act RelationSearch.Relation

variable {κ σ : Type} {call : Caller κ σ} {limit : Nat} {root r : Relation κ} {w : World κ σ}

/-! ## Inquiries -/

/-- What a client asks of an enumeration: the next solution, all further ones, or to show them to a visitor
that it brings, who may refuse some and may stop. -/
inductive Inquiry (κ σ : Type) : Type 1
  | first (settings : Settings)
  | collect (settings : Settings)
  | enumerate {α : Type} (settings : Settings) (client : Client κ σ α) (start : α)

/-- Asks an enumeration of a relation.  An interrupt of the search is one of the inquiry. -/
def Inquiry.make (call : Caller κ σ) (limit : Nat) (root : Relation κ) : Inquiry κ σ → Act κ σ Unit
  | first settings => do
    let _ ← root.first? call limit settings
  | collect settings => do
    let _ ← root.collect call limit settings
  | enumerate settings client start => do
    let result ← root.enumerate call limit settings client start
    if let some why := result.interrupt then throw why

/-- A relation that is being solved is not made ready to be driven. -/
theorem Relation.prepare_of_busy (settings : Settings) (busy : (w.node root.node).busy = true) :
    root.prepare settings w = .error .busy w := by
  have walked : (root.vars : Act κ σ _) w = .error .busy w := vars_of_busy (node_mem_ids root) busy
  unfold Relation.prepare
  cases settings.resetBeforeSolve with
  | true => exact (bind_apply ..).trans (by rw [reset_of_busy busy])
  | false => exact (bind_apply ..).trans (by rw [walked])

/-- A relation of which nobody is driving a node is made ready, whatever the settings. -/
theorem Relation.prepare_of_coherent (settings : Settings) (coherent : root.Coherent)
    (idle : root.Idle w) : ∃ w', root.prepare settings w = .ok root.scope w' := by
  cases keeps : settings.resetBeforeSolve with
  | false => exact ⟨w, prepare_of_idle keeps idle⟩
  | true =>
    obtain ⟨w', ran, ready⟩ := reset_ready coherent idle
    refine ⟨w', ?_⟩
    rw [prepare, keeps]
    refine (bind_apply ..).trans ?_
    rw [ran]
    exact (bind_apply ..).trans (by rw [vars_of_idle ready.idle]; rfl)

/-- No inquiry gets past a relation that is being solved. -/
theorem Inquiry.make_of_busy (inquiry : Inquiry κ σ) (busy : (w.node root.node).busy = true) :
    inquiry.make call limit root w = .error .busy w := by
  have stopped {α : Type} (settings : Settings) (next : List Var → Act κ σ α) :
      (do let vars ← root.prepare settings; next vars) w = .error .busy w := by
    rw [bind_apply, prepare_of_busy settings busy]
  have entered {α : Type} (settings : Settings) (client : Client κ σ α) (start : α) :
      root.enumerate call limit settings client start w = .error .busy w := stopped settings _
  cases inquiry with
  | first settings =>
    exact (bind_apply ..).trans (by rw [Relation.first?, stopped])
  | collect settings =>
    have collected : root.collect call limit settings w = .error .busy w :=
      (bind_apply ..).trans (by rw [entered])
    exact (bind_apply ..).trans (by rw [collected])
  | enumerate settings client start =>
    exact (bind_apply ..).trans (by rw [entered])

/-! ## Interjections -/

namespace Act

/-- Makes an inquiry and then tries to solve the relation.  Raises the alarm unless the one is interrupted as
busy and the other is refused as re-entrant. -/
def provoke (alarm : Act κ σ Unit) (call : Caller κ σ) (limit : Nat) (r : Relation κ)
    (inquiry : Inquiry κ σ) : Act κ σ Unit := do
  match ← (inquiry.make call limit r).attempt, ← (r.solve call limit).attempt with
  | .error .busy, .error (.reentrant _) => return
  | _, _ => alarm

/-- Does so for a list of inquiries, each with its relation. -/
def provokeAll (alarm : Act κ σ Unit) (call : Caller κ σ) (limit : Nat) :
    List (Relation κ × Inquiry κ σ) → Act κ σ Unit
  | [] => return
  | (r, inquiry) :: rest => do
    provoke alarm call limit r inquiry
    provokeAll alarm call limit rest

/-- Does so for those whose relation is on the chain of calls under way. -/
def interject (alarm : Act κ σ Unit) (call : Caller κ σ) (limit : Nat)
    (inquiries : List (Relation κ × Inquiry κ σ)) (chain : List Nat) : Act κ σ Unit :=
  provokeAll alarm call limit (inquiries.filter fun (r, _) => r.node ∈ chain)

theorem provoke_of_busy (alarm : Act κ σ Unit) (inquiry : Inquiry κ σ)
    (busy : (w.node r.node).busy = true) : provoke alarm call limit r inquiry w = .ok ⟨⟩ w := by
  have made : (inquiry.make call limit r).attempt w = .ok (.error .busy) w := by
    rw [attempt, inquiry.make_of_busy busy]
  have solved : (r.solve call limit).attempt w =
      .ok (.error (.reentrant (w.node r.node).label)) w := by
    rw [attempt, solve_of_busy busy]
  simp only [provoke, bind_apply, made, solved, pure_apply]

theorem provokeAll_of_busy (alarm : Act κ σ Unit) (inquiries : List (Relation κ × Inquiry κ σ))
    (busy : ∀ entry ∈ inquiries, (w.node entry.1.node).busy = true) :
    provokeAll alarm call limit inquiries w = .ok ⟨⟩ w := by
  induction inquiries with
  | nil => rfl
  | cons entry rest ih =>
    obtain ⟨here, later⟩ := List.forall_mem_cons.mp busy
    rw [provokeAll, bind_apply, provoke_of_busy alarm _ here]
    exact ih later

/-- No alarm is raised where just the nodes on the chain are busy. -/
theorem Silent.interject (alarm : Act κ σ Unit) (call : Caller κ σ) (limit : Nat)
    (inquiries : List (Relation κ × Inquiry κ σ)) :
    Silent (interject alarm call limit inquiries) := by
  intro chain w busy
  refine provokeAll_of_busy alarm _ fun entry found => (busy _).mpr ?_
  simpa using (List.mem_filter.mp found).2

end Act

namespace Relation

/-- **Enumerating a relation that is being solved is interrupted as busy**, where solving it is refused as
re-entrant, and neither changes anything.

This is so in every world where just the nodes on a chain are busy; a relation that shares no node with the
chain is made ready to be driven.  And it is so at every callback of a program of the client that runs from
a world where no node is busy, however the callbacks solve and reset relations in their turn: inquiries that
all of them would make, and an alarm that they would raise if something else came of one, make no
difference. -/
theorem enumerations_meet_busy_roots (body : κ → List Value → Program κ σ) (fuel depth : Nat) :
    (∀ (chain : List Nat) (w : World κ σ), w.Busy chain → ∀ r : Relation κ,
      (r.node ∈ chain → ∀ (call : Caller κ σ) (limit : Nat),
        (∀ inquiry : Inquiry κ σ, inquiry.make call limit r w = .error .busy w) ∧
        r.solve call limit w = .error (.reentrant (w.node r.node).label) w) ∧
      (r.Coherent → (∀ m ∈ r.ids, m ∉ chain) → ∀ settings : Settings,
        ∃ w', r.prepare settings w = .ok r.scope w')) ∧
    ∀ (alarm : Act κ σ Unit) (call : Caller κ σ) (limit : Nat)
      (inquiries : List (Relation κ × Inquiry κ σ)) (p : Program κ σ) (w : World κ σ), w.Busy [] →
        p.performWatched body fuel (interject alarm call limit inquiries) depth [] w =
          p.perform body fuel depth w := by
  refine ⟨fun chain w busy r => ⟨fun on call limit => ?_, fun coherent off settings => ?_⟩,
    fun alarm call limit inquiries p w idle => ?_⟩
  · have held : (w.node r.node).busy = true := (busy _).mpr on
    exact ⟨fun inquiry => inquiry.make_of_busy held, solve_of_busy held⟩
  · exact prepare_of_coherent settings coherent fun m hm => busy.not_busy (off m hm)
  · exact Marked.eq (Program.performWatched_concurs (.interject alarm call limit inquiries) p) idle

/-- While its conjunction is being solved, the test asks for the next solution, and to solve the conjunction:
busy, and re-entrant.  With an alarm on anything else the search is the same, and finds its solution. -/
theorem interjected_test_still_holds :
    let x : Var := ⟨0, "X"⟩
    let root : Relation Unit := .and 0 (.domain 1 x [.bool true]) (.predicate 2 [x] ())
    let body : Unit → List Value → Program Unit (Option (Except Interrupt Bool)) :=
      fun _ _ => .answer (.bool true)
    let check := Act.interject (throw (.failed "alarm")) (Program.caller body 2 1) 2
      [(root, .first {}), (root, .collect { resetBeforeSolve := true })]
    let p := Program.solve root .noting
    let w : World Unit (Option (Except Interrupt Bool)) := { client := none }
    w.Busy [] ∧ ∃ v w', p.performWatched body 2 check 1 [] w = .ok v w' ∧
      w'.client = some (.ok true) := by
  intro x root body check p w
  have same : p.performWatched body 2 check 1 [] w = p.perform body 2 1 w :=
    (enumerations_meet_busy_roots body 2 1).2 _ _ _ _ p w (.blank none)
  have ran : ∃ v w', p.perform body 2 1 w = .ok v w' ∧ decide (w'.client = some (.ok true)) = true :=
    exists_ok (by decide +kernel)
  obtain ⟨v, w', ran, noted⟩ := ran
  exact ⟨.blank none, v, w', same.trans ran, of_decide_eq_true noted⟩

/-- The test of a conjunction asks for the next solution of the conjunction: the reply is not that the
conjunction is re-entered but that it is busy. -/
theorem test_enumerates_its_conjunction :
    let x : Var := ⟨0, "X"⟩
    let root : Relation Unit := .and 0 (.domain 1 x [.bool true]) (.predicate 2 [x] ())
    let call : Caller Unit (Option (Except Interrupt Unit)) := fun _ _ => do
      let reply ← ((Inquiry.first {}).make (fun _ _ => return .unit) 2 root).attempt
      modify fun w => { w with client := some reply }
      return .bool true
    ∃ w', root.solve call 2 { client := none } = .ok true w' ∧
      w'.client = some (.error .busy) ∧ w'.client ≠ some (.error (.reentrant none)) := by
  intro x root call
  have ran : ∃ a w', root.solve call 2 { client := none } = .ok a w' ∧
      (a && decide (w'.client = some (.error .busy))) = true := exists_ok (by decide +kernel)
  obtain ⟨a, w', ran, seen⟩ := ran
  obtain ⟨rfl, met⟩ := (Bool.and_eq_true _ _).mp seen
  have replied : w'.client = some (.error .busy) := of_decide_eq_true met
  exact ⟨w', ran, replied, by rw [replied]; nofun⟩

end Relation
end RelationSearch
