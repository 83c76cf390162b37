import RelationSearch.Proofs.Chains
import RelationSearch.Proofs.Sessions

/-! # Re-entrancy

A callback may itself solve and reset relations, whose callbacks do so in turn.  `Program` is the language
of such callbacks, and `Program.caller` runs them, nested to a given depth.

The nodes that are busy are those on the chain of calls under way: a call marks its node and clears the mark
however it ends, and whatever runs inside it leaves the marks as it found them.  So when a callback
runs, just the nodes on the chain are busy; the calls under way are calls of `solve` then, since a reset
runs no callback.  This is said by a run that keeps the chain and raises an alarm at the first callback
that finds other marks (`Program.watched`, `Act.alarmed`): it is the same run, whatever the alarm.

With the marks known, so is the fate of every call (`Relation.Disciplined`).  A relation on the chain
refuses to be solved or reset; one that shares no node with the chain is searched without ever
meeting a busy node, since no relation is a part of itself.
-/
namespace RelationSearch

open Act RelationSearch.Relation

variable {κ σ α β : Type} {c : List Nat} {w w' : World κ σ}

/-! ## Busy marks -/

/-- Just the nodes on the chain are busy. -/
def World.Busy (w : World κ σ) (chain : List Nat) : Prop :=
  ∀ m, (w.node m).busy = true ↔ m ∈ chain

theorem World.Busy.blank (client : σ) : World.Busy ({ client } : World κ σ) [] := by
  intro m
  rw [World.node, Table.get_empty]
  exact iff_of_false Bool.false_ne_true List.not_mem_nil

theorem World.Busy.same (busy : w.Busy c) (same : SameBusy w w') : w'.Busy c := by
  intro m
  rw [same m]
  exact busy m

theorem World.Busy.not_busy {n : Nat} (busy : w.Busy c) (off : n ∉ c) : (w.node n).busy = false :=
  Bool.eq_false_iff.mpr fun h => off ((busy n).mp h)

theorem World.Busy.enter {n : Nat} (busy : w.Busy c) : (w.setBusy n true).Busy (n :: c) := by
  intro m
  by_cases h : n = m
  · subst h
    rw [World.setBusy, World.node_modifyNode_self]
    exact iff_of_true rfl (List.mem_cons_self ..)
  · rw [World.node_setBusy_of_ne _ _ h, busy m, List.mem_cons]
    exact ⟨.inr, fun on => on.resolve_left (Ne.symm h)⟩

theorem World.Busy.leave {n : Nat} (busy : w.Busy (n :: c)) (off : n ∉ c) :
    (w.setBusy n false).Busy c := by
  intro m
  by_cases h : n = m
  · subst h
    rw [World.setBusy, World.node_modifyNode_self]
    exact iff_of_false Bool.false_ne_true off
  · rw [World.node_setBusy_of_ne _ _ h, busy m, List.mem_cons]
    exact ⟨fun on => on.resolve_left (Ne.symm h), .inr⟩

/-! ## Steps that leave the marks alone -/

theorem Act.ofWalk_apply (walk : World κ σ → Option α) (w : World κ σ) :
    Act.ofWalk walk w = (walk w).elim (.error .busy w) (.ok · w) := by
  rw [Act.ofWalk, bind_apply, get_apply]
  dsimp only
  cases walk w <;> rfl

/-- Walking through a relation. -/
theorem SameBusy.ofWalk (walk : World κ σ → Option α) : (Act.ofWalk walk).Keeps SameBusy := by
  intro w
  rw [Act.final, Act.ofWalk_apply]
  cases walk w <;> exact SameBusy.steady.refl w

/-- Whatever the client does with its own state. -/
theorem SameBusy.client (f : World κ σ → σ) :
    (modify fun w => { w with client := f w } : Act κ σ Unit).Keeps SameBusy := fun _ _ => rfl

/-- Naming a relation. -/
theorem SameBusy.labelled (label : String) (r : Relation κ) :
    (r.labelled label : Act κ σ _).Keeps SameBusy :=
  .bind SameBusy.steady (fun w => SameBusy.modifyNode w r.node fun _ => rfl) fun _ =>
    .pure SameBusy.steady r

/-! ## Callbacks that drive relations -/

/-- What a callback does.  It may offer values, solve and reset relations, and take other steps, which leave
the busy marks alone; it goes on from what came of each.  In the end it answers or fails. -/
inductive Program (κ σ : Type) : Type 1
  | answer (v : Value)
  | fail (message : String)
  | step {α : Type} (act : Act κ σ α) (calm : act.Keeps SameBusy)
      (next : Except Interrupt α → Program κ σ)
  | offer (x : Var) (v : Value) (next : Except Interrupt Bool → Program κ σ)
  | solve (r : Relation κ) (next : Except Interrupt Bool → Program κ σ)
  | reset (r : Relation κ) (next : Except Interrupt Unit → Program κ σ)

namespace Program

/-- Runs what a callback does, given how relations are solved and callbacks run. -/
def run (solving : Relation κ → Act κ σ Bool) (call : Caller κ σ) : Program κ σ → Act κ σ Value
  | answer v => return v
  | fail message => throw (.failed message)
  | step act _ next => do run solving call (next (← attempt act))
  | offer x v next => do run solving call (next (← attempt (x.bind call v)))
  | solve r next => do run solving call (next (← attempt (solving r)))
  | reset r next => do run solving call (next (← attempt r.reset))

/-- None of its requests offers a value, or solves or resets a relation. -/
inductive Passive : Program κ σ → Prop
  | answer (v : Value) : Passive (.answer v)
  | fail (message : String) : Passive (.fail message)
  | step {α : Type} (act : Act κ σ α) (calm : act.Keeps SameBusy)
      {next : Except Interrupt α → Program κ σ} (rest : ∀ reply, Passive (next reply)) :
    Passive (.step act calm next)

/-- Notes what came of something, and then the test holds. -/
def noting (reply : Except Interrupt α) : Program κ (Option (Except Interrupt α)) :=
  .step (modify fun w => { w with client := some reply }) (SameBusy.client fun _ => some reply)
    fun _ => .answer (.bool true)

variable (body : κ → List Value → Program κ σ) (fuel : Nat)

/-- Runs callbacks that nest at most `depth` deep. -/
def caller : (depth : Nat) → Caller κ σ
  | 0 => fun _ _ => throw .outOfFuel
  | depth + 1 => fun k args =>
    (body k args).run (fun r => r.solve (caller depth) fuel) (caller depth)

/-- Runs callbacks likewise, after a check that knows the chain of calls under way. -/
def watched (check : List Nat → Act κ σ Unit) : (depth : Nat) → (chain : List Nat) → Caller κ σ
  | 0, chain => fun _ _ => do
    check chain
    throw .outOfFuel
  | depth + 1, chain => fun k args => do
    check chain
    (body k args).run (fun r => r.solveUnder (watched check depth) fuel chain)
      (watched check depth chain)

/-- Runs a program, with callbacks that nest at most `depth` deep. -/
def perform (depth : Nat) (p : Program κ σ) : Act κ σ Value :=
  p.run (fun r => r.solve (caller body fuel depth) fuel) (caller body fuel depth)

/-- Runs a program likewise, with callbacks that are checked. -/
def performWatched (check : List Nat → Act κ σ Unit) (depth : Nat) (chain : List Nat)
    (p : Program κ σ) : Act κ σ Value :=
  p.run (fun r => r.solveUnder (watched body fuel check depth) fuel chain)
    (watched body fuel check depth chain)

end Program

open Classical in
/-- Raises the alarm unless just the nodes on the chain are busy. -/
noncomputable def Act.alarmed (alarm : Act κ σ Unit) (chain : List Nat) : Act κ σ Unit := fun w =>
  if w.Busy chain then .ok ⟨⟩ w else alarm w

/-- Where just the nodes on the chain are busy, the check finds nothing wrong and leaves the world as it is. -/
def Act.Silent (check : List Nat → Act κ σ Unit) : Prop :=
  ∀ (chain : List Nat) (w : World κ σ), w.Busy chain → check chain w = .ok ⟨⟩ w

theorem Act.Silent.alarmed (alarm : Act κ σ Unit) : Silent (alarmed alarm) :=
  fun _ _ busy => if_pos busy

/-! ## The chain is what is busy -/

/-- A busy relation was met. -/
inductive Interrupt.Clash : Interrupt → Prop
  | reentrant (label : Option String) : Clash (.reentrant label)
  | busy : Clash .busy

/-- It is one world, and just the nodes on the chain are busy there. -/
def Marked (chain : List Nat) (w v : World κ σ) : Prop := v = w ∧ w.Busy chain

namespace Marked

variable {E : Interrupt → Prop} {act act' : Act κ σ α}

theorem commons (unbound : ∀ x r, E (.unbound x r)) (outOfFuel : E .outOfFuel) :
    Commons E (@Marked κ σ) where
  cell h x := by rw [h.1]
  node h n := by rw [h.1]
  modifyCell h x f := ⟨by rw [h.1], h.2⟩
  modifyNode h n f calm := ⟨by rw [h.1], h.2.same (.modifyNode _ n calm)⟩
  record h event := ⟨by rw [h.1], fun m => by rw [World.node_record]; exact h.2 m⟩
  enter h n _ := ⟨by rw [h.1], h.2.enter⟩
  leave before n idle h :=
    ⟨by rw [h.1], h.2.leave fun on => Bool.false_ne_true (idle.symm.trans ((before.2 n).mpr on))⟩
  unbound := unbound
  outOfFuel := outOfFuel
  onChain := .inr fun h busy => (h.2 _).mp busy

/-- Where every interrupt will do. -/
theorem any : Commons (fun _ => True) (@Marked κ σ) :=
  commons (fun _ _ => trivial) trivial

/-- Where no clash is met. -/
theorem clashless : Commons (¬ ·.Clash) (@Marked κ σ) :=
  commons (fun _ _ => nofun) nofun

/-- Computations that concur on marked worlds are one there, and leave the marks. -/
theorem eq (h : Concurs E (Marked c) act act') (busy : w.Busy c) : act w = act' w := by
  have ended := h w w ⟨rfl, busy⟩
  generalize act w = result, act' w = result' at ended
  cases ended with
  | ok worlds | error _ worlds => rw [worlds.1]

theorem left (h : Concurs E (Marked c) act act') (busy : w.Busy c) : (act'.final w).Busy c := by
  have ended := h w w ⟨rfl, busy⟩
  unfold Act.final
  generalize act w = result, act' w = result' at ended
  cases ended with
  | ok worlds | error _ worlds => exact worlds.1 ▸ worlds.2

theorem kind {why : Interrupt} (h : Concurs E (Marked c) act act') (busy : w.Busy c)
    (ran : act' w = .error why w') : E why := by
  have ended := h w w ⟨rfl, busy⟩
  rw [ran] at ended
  generalize act w = result at ended
  cases ended with
  | error kind _ => exact kind

theorem of_calm (calm : act.Keeps SameBusy) : Concurs (fun _ => True) (Marked c) act act := by
  rintro _ w ⟨rfl, busy⟩
  have left : (act.final w).Busy c := busy.same (calm w)
  unfold Act.final at left
  generalize act w = result at left ⊢
  cases result with
  | ok a w' => exact .ok ⟨rfl, left⟩
  | error why w' => exact .error trivial ⟨rfl, left⟩

end Marked

namespace Program

variable {body : κ → List Value → Program κ σ} {fuel depth : Nat}

/-- What a callback does concurs if the calls that it makes do. -/
theorem run_concurs {solving solving' : Relation κ → Act κ σ Bool} {call call' : Caller κ σ}
    (solve : ∀ r, Concurs (fun _ => True) (Marked c) (solving r) (solving' r))
    (callback : ∀ k args, Concurs (fun _ => True) (Marked c) (call k args) (call' k args))
    (p : Program κ σ) :
    Concurs (¬ ·.Clash) (Marked c) (p.run solving call) (p.run solving' call') := by
  induction p with
  | answer v => exact .pure v
  | fail message => exact .throw nofun
  | step act calm next ih => exact (Marked.of_calm calm).attempt.bind ih
  | offer x v next ih => exact (Marked.any.bind callback x v).attempt.bind ih
  | solve r next ih => exact (solve r).attempt.bind ih
  | reset r next ih => exact (Marked.any.reset (.inl fun _ => trivial)).attempt.bind ih

variable {check : List Nat → Act κ σ Unit} (silent : Act.Silent check)

include silent in
/-- Nothing comes of the check. -/
theorem checked_bind {next : Act κ σ α} {next' : Act κ σ α} {E : Interrupt → Prop}
    (h : Concurs E (Marked c) next next') : Concurs E (Marked c) (do check c; next) next' := by
  rintro w v hw
  rw [bind_apply, silent c w hw.2]
  exact h w v hw

theorem perform_concurs_of
    (callback : ∀ c k args, Concurs (fun _ => True) (Marked c)
      (watched body fuel check depth c k args) (caller body fuel depth k args))
    (p : Program κ σ) : Concurs (¬ ·.Clash) (Marked c)
      (p.performWatched body fuel check depth c) (p.perform body fuel depth) := by
  refine run_concurs (fun r => ?_) (callback c) p
  rw [← solveUnder_const (caller body fuel depth) fuel c r]
  exact Marked.any.solve callback (.inl fun _ => trivial)

include silent

/-- **Callbacks run while just the nodes on the chain are busy**, so that the watched ones raise no alarm;
and no clash that they meet interrupts the search that runs them. -/
theorem watched_concurs (depth : Nat) (c : List Nat) (k : κ) (args : List Value) :
    Concurs (¬ ·.Clash) (Marked c) (watched body fuel check depth c k args)
      (caller body fuel depth k args) := by
  induction depth generalizing c k args with
  | zero => exact checked_bind silent (.throw nofun)
  | succ depth ih =>
    have callback (c : List Nat) (k : κ) (args : List Value) := (ih c k args).mono fun _ _ => trivial
    exact checked_bind silent (perform_concurs_of callback (body k args))

theorem performWatched_concurs (p : Program κ σ) : Concurs (¬ ·.Clash) (Marked c)
    (p.performWatched body fuel check depth c) (p.perform body fuel depth) :=
  perform_concurs_of (fun c k args => (watched_concurs silent depth c k args).mono fun _ _ => trivial) p

omit silent

theorem perform_concurs (alarm : Act κ σ Unit) (p : Program κ σ) : Concurs (¬ ·.Clash) (Marked c)
    (p.performWatched body fuel (alarmed alarm) depth c) (p.perform body fuel depth) :=
  performWatched_concurs (.alarmed alarm) p

/-- Solving, with and without the alarm. -/
theorem solve_concurs {E : Interrupt → Prop} (commons : Commons E (@Marked κ σ))
    (le : ∀ why, ¬ why.Clash → E why) (alarm : Act κ σ Unit) {r : Relation κ}
    (clear : Commons.Clear E c r) :
    Concurs E (Marked c) (r.solveUnder (watched body fuel (alarmed alarm) depth) fuel c)
      (r.solve (caller body fuel depth) fuel) := by
  rw [← solveUnder_const (caller body fuel depth) fuel c r]
  exact commons.solve (fun c k args => (watched_concurs (.alarmed alarm) depth c k args).mono le) clear

end Program

/-! ## The fate of every call -/

namespace Relation

variable {r : Relation κ}

theorem addVariables_of_busy {m : Nat} (seen : List Var) (hm : m ∈ r.ids)
    (busy : (w.node m).busy = true) : w.addVariables seen r = none := by
  have met : w.idle m = none := by rw [World.idle, busy]; rfl
  induction r generalizing seen with
  | and n l r ihl ihr | or n l r ihl ihr =>
    rw [World.addVariables]
    have hm : m = n ∨ m ∈ l.ids ∨ m ∈ r.ids := by simpa [ids, subs, node] using hm
    rcases hm with rfl | hm | hm
    · rw [met]; rfl
    · rw [ihl seen hm]
      cases w.idle n <;> rfl
    · cases w.idle n with
      | none => rfl
      | some _ =>
        cases w.addVariables seen l with
        | none => rfl
        | some met => exact ihr met hm
  | domain n | convert n | compare n | predicate n | always n | never n =>
    obtain rfl : m = n := by simpa [ids, subs, node] using hm
    unfold World.addVariables
    rw [node, met]
    rfl

open Classical in
/-- How calls on a relation go in the world `w`, while calls on the nodes of the chain are under way. -/
structure Disciplined (call : Caller κ σ) (fuel : Nat) (chain : List Nat) (w : World κ σ)
    (r : Relation κ) : Prop where
  /-- While it is being solved it is not solved again: the error names it, and nothing changes. -/
  refused : r.node ∈ chain → r.solve call fuel w = .error (.reentrant (w.node r.node).label) w
  /-- However solving it ends, the busy nodes are those on the chain. -/
  released : ((r.solve call fuel).final w).Busy chain
  /-- Solving it meets no busy relation, unless the relation shares a node with the chain. -/
  entered : r.Coherent → (∀ m ∈ r.ids, m ∉ chain) →
    ∀ why w', r.solve call fuel w = .error why w' → ¬ why.Clash
  /-- While it is being solved it is not reset either. -/
  resetRefused : r.node ∈ chain → r.reset w = .error .busy w
  /-- However resetting it ends, the busy nodes are those on the chain. -/
  resetReleased : ((r.reset : Act κ σ Unit).final w).Busy chain
  /-- Unless it shares a node with the chain, it can be reset. -/
  resets : r.Coherent → (∀ m ∈ r.ids, m ∉ chain) → ∃ w', r.reset w = .ok ⟨⟩ w' ∧ r.Ready w'
  /-- Its parts can be listed unless it is itself on the chain. -/
  children : r.children w = if r.node ∈ chain then .error .busy w else .ok r.parts w
  /-- Its variables can be listed unless it shares a node with the chain. -/
  vars : r.vars w = if ∃ m ∈ r.ids, m ∈ chain then .error .busy w else .ok (r.gather []) w

theorem solve_of_busy {call : Caller κ σ} {fuel : Nat} (busy : (w.node r.node).busy = true) :
    r.solve call fuel w = .error (.reentrant (w.node r.node).label) w := by
  cases r <;> exact answering_of_busy busy

theorem reset_of_busy (busy : (w.node r.node).busy = true) :
    (r.reset : Act κ σ Unit) w = .error .busy w := by
  cases r <;> exact rewinding_of_busy busy

theorem vars_of_busy {m : Nat} (hm : m ∈ r.ids) (busy : (w.node m).busy = true) :
    r.vars w = .error .busy w := by
  rw [Relation.vars, Act.ofWalk_apply, addVariables_of_busy [] hm busy]
  rfl

theorem children_of_marks (busy : w.Busy c) (r : Relation κ) [Decidable (r.node ∈ c)] :
    r.children w = if r.node ∈ c then .error .busy w else .ok r.parts w := by
  rw [Relation.children, Act.ofWalk_apply]
  split
  · next on => rw [World.idle, (busy _).mpr on]; rfl
  · next off => rw [idle_eq_some (busy.not_busy off)]; rfl

theorem vars_of_marks (busy : w.Busy c) (r : Relation κ) [Decidable (∃ m ∈ r.ids, m ∈ c)] :
    r.vars w = if ∃ m ∈ r.ids, m ∈ c then .error .busy w else .ok (r.gather []) w := by
  split
  · next shared =>
    obtain ⟨m, hm, on⟩ := shared
    exact vars_of_busy hm ((busy m).mpr on)
  · next apart =>
    exact vars_of_idle fun m hm => busy.not_busy fun on => apart ⟨m, hm, on⟩

/-- **Busy nodes are those on the chain of calls under way, and calls go as the chain says.**

A program of the client runs from a world where no node is busy.  An alarm that every callback would raise on
finding other nodes busy than those on the chain makes no difference: it is never raised.  When the
program is over no node is busy.  And wherever just the nodes on a chain are busy, every call on
every relation is disciplined; on the empty chain this is about the calls that are made outside of
callbacks. -/
theorem calls_follow_the_chain (body : κ → List Value → Program κ σ) (fuel depth : Nat) :
    (∀ (alarm : Act κ σ Unit) (p : Program κ σ) (w : World κ σ), w.Busy [] →
      p.performWatched body fuel (alarmed alarm) depth [] w = p.perform body fuel depth w ∧
      ((p.perform body fuel depth).final w).Busy []) ∧
    ∀ (chain : List Nat) (w : World κ σ), w.Busy chain →
      ∀ r : Relation κ, r.Disciplined (Program.caller body fuel depth) fuel chain w := by
  constructor
  · intro alarm p w idle
    have concurs : Concurs _ (Marked []) (p.performWatched body fuel (alarmed alarm) depth [])
        (p.perform body fuel depth) := Program.perform_concurs alarm p
    exact ⟨Marked.eq concurs idle, Marked.left concurs idle⟩
  · intro chain w busy r
    have solved {E : Interrupt → Prop} (commons : Commons E (@Marked κ σ))
        (le : ∀ why, ¬ why.Clash → E why) (clear : Commons.Clear E chain r) :
        Concurs E (Marked chain)
          (r.solveUnder (Program.watched body fuel (alarmed (return ⟨⟩)) depth) fuel chain)
          (r.solve (Program.caller body fuel depth) fuel) :=
      Program.solve_concurs commons le _ clear
    exact {
      refused := fun on => solve_of_busy ((busy _).mpr on)
      released := Marked.left (solved Marked.any (fun _ _ => trivial) (.inl fun _ => trivial)) busy
      entered := fun coherent apart _ _ ran =>
        Marked.kind (solved Marked.clashless (fun _ h => h) (.inr ⟨coherent, apart⟩)) busy ran
      resetRefused := fun on => reset_of_busy ((busy _).mpr on)
      resetReleased := Marked.left (Marked.any.reset (.inl fun _ => trivial)) busy
      resets := fun coherent apart => reset_ready coherent fun m hm => busy.not_busy (apart m hm)
      children := children_of_marks busy r
      vars := vars_of_marks busy r }

/-- The test of a conjunction solves the conjunction: the error names it, the search goes on, and when it
has found its solution no node is busy. -/
theorem test_solves_its_conjunction :
    let x : Var := ⟨0, "X"⟩
    let root : Relation Unit := .and 0 (.domain 1 x [.bool true]) (.predicate 2 [x] ())
    let body : Unit → List Value → Program Unit (Option (Except Interrupt Bool)) :=
      fun _ _ => .solve root .noting
    let w := (root.labelled "root").final { client := none }
    w.Busy [] ∧ ∃ w', root.solve (Program.caller body 2 2) 2 w = .ok true w' ∧
      w'.client = some (.error (.reentrant (some "root"))) ∧ w'.Busy [] := by
  intro x root body w
  have idle : w.Busy [] := (World.Busy.blank none).same (SameBusy.labelled "root" root _)
  have ran : ∃ a w', root.solve (Program.caller body 2 2) 2 w = .ok a w' ∧
      (a && decide (w'.client = some (.error (.reentrant (some "root"))))) = true :=
    exists_ok (by decide +kernel)
  obtain ⟨a, w', ran, seen⟩ := ran
  obtain ⟨rfl, met⟩ := (Bool.and_eq_true _ _).mp seen
  have released := ((calls_follow_the_chain body 2 2).2 [] w idle root).released
  rw [final_of_ok ran] at released
  exact ⟨idle, w', ran, of_decide_eq_true met, released⟩

/-- The test of a conjunction asks for the parts of the conjunction.  It solves and resets nothing, and
still it meets a busy relation. -/
theorem test_lists_its_conjunction :
    let x : Var := ⟨0, "X"⟩
    let root : Relation Unit := .and 0 (.domain 1 x [.bool true]) (.predicate 2 [x] ())
    let body : Unit → List Value → Program Unit (Option (Except Interrupt (List (Relation Unit)))) :=
      fun _ _ => .step root.children (SameBusy.ofWalk _) .noting
    (∀ args, (body () args).Passive) ∧
      ∃ w', root.solve (Program.caller body 2 1) 2 { client := none } = .ok true w' ∧
        w'.client = some (.error .busy) := by
  intro x root body
  refine ⟨fun _ => .step _ _ fun reply => .step _ _ fun _ => .answer _, ?_⟩
  -- the parts themselves cannot be compared
  have ran : ∃ a w', root.solve (Program.caller body 2 1) 2 { client := none } = .ok a w' ∧
      (a && decide (w'.client.map (Except.map fun _ => ()) = some (.error .busy))) = true :=
    exists_ok (by decide +kernel)
  obtain ⟨a, w', ran, seen⟩ := ran
  obtain ⟨rfl, met⟩ := (Bool.and_eq_true _ _).mp seen
  obtain ⟨reply, noted, refused⟩ := Option.map_eq_some_iff.mp (of_decide_eq_true met)
  cases reply with
  | ok parts => cases refused
  | error why =>
    obtain rfl : why = .busy := Except.error.inj refused
    exact ⟨w', ran, noted⟩

end Relation
end RelationSearch
