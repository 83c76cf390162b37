import RelationSearch.Proofs.Chains
import RelationSearch.Proofs.Sessions

/-! # A window on the solutions

Whatever calls of the engine follow one another on a graph, they show the solutions that the graph comes
to, each once and in order: what one call has not come to is left to the next one
(`Relation.engine_is_a_window`).  A call may look for one solution, collect the rest, or enumerate with
a filter, a bound and a client that wants to stop; between two calls, and while a solution is visited,
the client may do anything that leaves the variables and the nodes alone.

What is said of a single call depends on its kind (`Served.Accounts`).  A call that looks for one
solution and finds none has met the end of the graph's solutions; one that collects goes on to that end
or to its bound.

The stream of solutions is that of the calls of `solve` on the graph (`Stream`).  Where callbacks depend
on nothing but their arguments, the variables and the nodes (`Caller.Blind`), it is the stream of these
calls made one after the other with nothing in between.
-/
namespace RelationSearch

open Act RelationSearch.Relation

variable {κ σ α : Type} {call : Caller κ σ} {fuel : Nat} {root : Relation κ}
variable {start w w' v : World κ σ}

/-! ## Streams -/

/-- Since the world `start`, calls of `solve` have come to these solutions.  Between the calls the world
may have changed as `between` says. -/
inductive Stream (between : World κ σ → World κ σ → Prop) (call : Caller κ σ) (fuel : Nat)
    (root : Relation κ) (start : World κ σ) : List Solution → World κ σ → Prop
  | start : Stream between call fuel root start [] start
  | found {captures : List Solution} {w w' : World κ σ}
      (stream : Stream between call fuel root start captures w)
      (ran : root.solve call fuel w = .ok true w') :
    Stream between call fuel root start (captures ++ [Solution.capture w' root.scope]) w'
  | exhausted {captures : List Solution} {w w' : World κ σ}
      (stream : Stream between call fuel root start captures w)
      (ran : root.solve call fuel w = .ok false w') : Stream between call fuel root start captures w'
  | meanwhile {captures : List Solution} {w w' : World κ σ}
      (stream : Stream between call fuel root start captures w) (same : between w w') :
    Stream between call fuel root start captures w'

/-- Callbacks depend on nothing but their arguments, the variables and the nodes. -/
def Caller.Blind (call : Caller κ σ) : Prop :=
  ∀ k args, Concurs (fun _ => True) Untouched (call k args) (call k args)

theorem Function.blind : Caller.Blind (Function.call (σ := σ)) := by
  intro f args
  unfold Function.call
  cases f args with
  | ok v => exact .pure v
  | error message => exact .throw trivial

/-- A search cannot tell worlds apart that have the same variables and nodes. -/
theorem Untouched.commons :
    Commons (fun _ => True) (fun _ => (Untouched : World κ σ → World κ σ → Prop)) where
  cell h := h.cell
  node h := h.node
  modifyCell h x f := ⟨by simp only [World.modifyCell, h.cells], h.nodes⟩
  modifyNode h n f _ := ⟨h.cells, by simp only [World.modifyNode, h.nodes]⟩
  record h event := by
    have back {w : World κ σ} : Untouched (w.record event) w := by
      unfold World.record
      split <;> exact ⟨rfl, rfl⟩
    exact Untouched.steady.trans back (Untouched.steady.trans h (.record _ event))
  enter h n _ := ⟨h.cells, by simp only [World.setBusy, World.modifyNode, h.nodes]⟩
  leave _ n _ h := ⟨h.cells, by simp only [World.setBusy, World.modifyNode, h.nodes]⟩
  unbound _ _ := trivial
  outOfFuel := trivial
  onChain := .inl fun _ => trivial

/-- To blind callbacks, worlds with the same variables and nodes are the same. -/
theorem Caller.Blind.solve (blind : call.Blind) (fuel : Nat) (r : Relation κ) :
    Concurs (fun _ => True) Untouched (r.solve call fuel) (r.solve call fuel) := by
  have concurs : Concurs _ _ (r.solveUnder (fun _ => call) fuel [])
      (r.solveUnder (fun _ => call) fuel []) :=
    Untouched.commons.solve (fun _ => blind) (.inl fun _ => trivial)
  rwa [solveUnder_const] at concurs

/-- A call that answers in one of them answers the same in the other. -/
theorem Caller.Blind.solve_ok (blind : call.Blind) {r : Relation κ} {answer : Bool}
    {u u' v : World κ σ} (same : Untouched v u) (ran : r.solve call fuel u = .ok answer u') :
    ∃ v', r.solve call fuel v = .ok answer v' ∧ Untouched v' u' := by
  have concur := blind.solve fuel r v u same
  rw [ran] at concur
  generalize r.solve call fuel v = result at concur
  cases concur with
  | ok worlds => exact ⟨_, rfl, worlds⟩

theorem Untouched.capture (h : Untouched w w') (xs : List Var) :
    Solution.capture w' xs = Solution.capture w xs := by
  unfold Solution.capture
  congr 1
  funext solution x
  rw [h.value]

/-- What happens between the calls makes no difference to blind callbacks. -/
theorem Stream.undisturbed (blind : call.Blind) {captures : List Solution}
    (stream : Stream Untouched call fuel root start captures w) :
    ∃ v, Untouched v w ∧ Stream (fun _ _ => False) call fuel root start captures v := by
  induction stream with
  | start => exact ⟨start, Untouched.steady.refl start, .start⟩
  | found _ ran ih =>
    obtain ⟨v, same, stream⟩ := ih
    obtain ⟨v', solved, worlds⟩ := blind.solve_ok same ran
    exact ⟨v', worlds, worlds.capture root.scope ▸ stream.found solved⟩
  | exhausted _ ran ih =>
    obtain ⟨v, same, stream⟩ := ih
    obtain ⟨v', solved, worlds⟩ := blind.solve_ok same ran
    exact ⟨v', worlds, stream.exhausted solved⟩
  | meanwhile _ between ih =>
    obtain ⟨v, same, stream⟩ := ih
    exact ⟨v, Untouched.steady.trans same between, stream⟩

/-! ## Sessions -/

section Sessions

variable {settings : Settings} {client : Client κ σ α} {a b : α} {t : Transcript} {early : Bool}
variable {captures : List Solution}

theorem Transcript.shown_append (t u : Transcript) :
    Transcript.shown (t ++ u) = t.shown ++ u.shown := List.map_append

/-- A session shows what the stream comes to next. -/
theorem Session.streams (quiet : client.Quiet)
    (under : Session call fuel root settings client a w t b v)
    (stream : Stream Untouched call fuel root start captures w) :
    Stream Untouched call fuel root start (captures ++ t.shown) v := by
  induction under with
  | start => exact (List.append_nil captures).symm ▸ stream
  | refused _ _ ran judged ih =>
    rw [Transcript.shown_append, ← List.append_assoc]
    exact (ih.found ran).meanwhile ((quiet.accepts _).of_ok judged)
  | taken _ _ ran judged noted visited ih =>
    rw [Transcript.shown_append, ← List.append_assoc]
    exact (((ih.found ran).meanwhile ((quiet.accepts _).of_ok judged)).meanwhile
      noted.untouched).meanwhile ((quiet.visit _ _).of_ok visited)

theorem Closes.streams (quiet : client.Quiet)
    (closes : Closes call fuel root settings client a w t b early v)
    (stream : Stream Untouched call fuel root start captures w) :
    Stream Untouched call fuel root start (captures ++ t.shown) v := by
  cases closes with
  | full under => exact under.streams quiet stream
  | exhausted under _ ran => exact (under.streams quiet stream).exhausted ran
  | stopped under _ ran judged noted visited =>
    rw [Transcript.shown_append, ← List.append_assoc]
    exact ((((under.streams quiet stream).found ran).meanwhile
      ((quiet.accepts _).of_ok judged)).meanwhile noted.untouched).meanwhile
      ((quiet.visit _ _).of_ok visited)

/-- The client that takes every solution gathers all that it is shown. -/
theorem Session.collected {a b : Array Solution}
    (under : Session call fuel root settings collector a w t b v) :
    b.toList = a.toList ++ t.shown := by
  induction under with
  | start => exact (List.append_nil _).symm
  | refused _ _ _ judged => cases judged
  | taken _ _ _ _ _ visited ih =>
    cases visited
    rw [Transcript.shown_append, Array.toList_push, ih, List.append_assoc]
    rfl

theorem Closes.collected {a b : Array Solution}
    (closes : Closes call fuel root settings collector a w t b early v) :
    b.toList = a.toList ++ t.shown := by
  cases closes with
  | full under | exhausted under => exact under.collected
  | stopped _ _ _ _ _ visited => cases visited

theorem Session.taken_eq_shown {a b : Array Solution}
    (under : Session call fuel root settings collector a w t b v) : t.taken = t.shown := by
  induction under with
  | start => rfl
  | refused _ _ _ judged => cases judged
  | taken _ _ _ _ _ _ ih =>
    rw [Transcript.shown_append, ← ih, Transcript.taken, List.filterMap_append]
    rfl

/-- No more is taken than the settings ask for. -/
theorem Session.within {m : Nat} (under : Session call fuel root settings client a w t b v)
    (asked : settings.maxSolutions = some m) : t.taken.length ≤ m := by
  cases under with
  | start => exact Nat.zero_le m
  | refused under room =>
    have less := (under.isOpen room).2 m asked
    simpa [Transcript.taken] using Nat.le_of_lt less
  | taken under room =>
    have less := (under.isOpen room).2 m asked
    simpa [Transcript.taken] using Nat.succ_le_of_lt less

/-- The client that takes every solution is shown as many as the settings ask for, or all there are. -/
theorem Closes.collector_ends {a b : Array Solution}
    (closes : Closes call fuel root settings collector a w t b early v) :
    settings.maxSolutions = some t.shown.length ∨ ∃ u, root.solve call fuel u = .ok false v := by
  cases closes with
  | full under full =>
    obtain ⟨m, asked, enough⟩ := Settings.isReached_eq_true.mp full
    rw [← under.taken_eq_shown, asked, Nat.le_antisymm enough (under.within asked)]
    exact .inl rfl
  | exhausted under room ran => exact .inr ⟨_, ran⟩
  | stopped _ _ _ _ _ visited => cases visited

end Sessions

/-! ## Rows of calls -/

/-- What came of a call of the engine, and the worlds before and after it. -/
inductive Served (κ σ : Type) : Type 1
  | first (before : World κ σ) (reply : Option Solution) (after : World κ σ)
  | collected (settings : Settings) (before : World κ σ) (reply : List Solution) (after : World κ σ)
  | enumerated {α : Type} (settings : Settings) (client : Client κ σ α) (start : α)
    (before : World κ σ) (result : Enumeration α) (after : World κ σ)

section Accounts

variable (call : Caller κ σ) (fuel : Nat) (root : Relation κ)

/-- The account of a call that looks for one solution.  The reply is what a single call of `solve` has come
to; there is none only if that call has answered `false`. -/
structure Looks (w : World κ σ) (reply : Option Solution) (w' : World κ σ) (t : Transcript) : Prop where
  shown : t.shown = reply.toList
  ends : ∃ answer v, root.solve call fuel w = .ok answer v ∧ v.Noted w' ∧
    reply = if answer then some (Solution.capture v root.scope) else none

/-- The account of a call that collects solutions.  It is an enumeration whose client takes them all.  The
reply has as many as the settings ask for, or else the last call of `solve` has answered `false`. -/
structure Collects (settings : Settings) (w : World κ σ) (reply : List Solution) (w' : World κ σ)
    (t : Transcript) : Prop where
  shown : t.shown = reply
  account : ∃ result v, Account call fuel root settings collector #[] w result v t ∧ v.Noted w'
  ends : settings.maxSolutions = some reply.length ∨
    ∃ u v, root.solve call fuel u = .ok false v ∧ v.Noted w'

/-- The transcript accounts for what came of a call of the engine. -/
def Served.Accounts : Served κ σ → Transcript → Prop
  | .first w reply w', t => Looks call fuel root w reply w' t
  | .collected settings w reply w', t => Collects call fuel root settings w reply w' t
  | .enumerated settings client start w result w', t =>
    ∃ v, Account call fuel root settings client start w result v t ∧ v.Noted w'

end Accounts

/-- Since the world `start`, calls of the engine have been made on the graph.  None has failed, none has
reset the graph first, and nothing else has touched the variables and the nodes. -/
inductive Row (call : Caller κ σ) (fuel : Nat) (root : Relation κ) (start : World κ σ) :
    List (Served κ σ) → World κ σ → Prop
  | start : Row call fuel root start [] start
  | first {served : List (Served κ σ)} {w w' : World κ σ} {reply : Option Solution}
      (settings : Settings) (row : Row call fuel root start served w)
      (keeps : settings.resetBeforeSolve = false)
      (ran : root.first? call fuel settings w = .ok reply w') :
    Row call fuel root start (served ++ [.first w reply w']) w'
  | collect {served : List (Served κ σ)} {w w' : World κ σ} {reply : List Solution}
      (settings : Settings) (row : Row call fuel root start served w)
      (keeps : settings.resetBeforeSolve = false)
      (ran : root.collect call fuel settings w = .ok reply w') :
    Row call fuel root start (served ++ [.collected settings w reply w']) w'
  | enumerate {served : List (Served κ σ)} {w w' : World κ σ} {α : Type} {result : Enumeration α}
      (settings : Settings) (client : Client κ σ α) (a : α)
      (row : Row call fuel root start served w) (keeps : settings.resetBeforeSolve = false)
      (quiet : client.Quiet) (ran : root.enumerate call fuel settings client a w = .ok result w')
      (normal : result.interrupt = none) :
    Row call fuel root start (served ++ [.enumerated settings client a w result w']) w'
  | meanwhile {served : List (Served κ σ)} {w w' : World κ σ}
      (row : Row call fuel root start served w) (same : Untouched w w') :
    Row call fuel root start served w'

section Calls

variable {settings : Settings} {captures : List Solution}
variable (keeps : settings.resetBeforeSolve = false)
variable (stream : Stream Untouched call fuel root start captures w)
include keeps stream

theorem first?_streams {reply : Option Solution}
    (ran : root.first? call fuel settings w = .ok reply w') :
    ∃ t, Looks call fuel root w reply w' t ∧
      Stream Untouched call fuel root start (captures ++ t.shown) w' := by
  obtain ⟨xs, w₁, prepared, searching⟩ := bind_ok ran
  obtain ⟨rfl, rfl⟩ := prepare_ok keeps prepared
  obtain ⟨answer, v, solved, reporting⟩ := bind_ok searching
  cases answer with
  | true =>
    cases reporting
    exact ⟨[(_, .taken true)], ⟨rfl, true, v, solved, .record v _, rfl⟩,
      (stream.found solved).meanwhile (.record v _)⟩
  | false =>
    cases reporting
    refine ⟨[], ⟨rfl, false, v, solved, .record v _, rfl⟩, ?_⟩
    rw [show Transcript.shown [] = [] from rfl, List.append_nil]
    exact (stream.exhausted solved).meanwhile (.record v _)

theorem enumerate_streams {client : Client κ σ α} {a : α} {result : Enumeration α}
    (quiet : client.Quiet) (ran : root.enumerate call fuel settings client a w = .ok result w')
    (normal : result.interrupt = none) :
    ∃ t v, Account call fuel root settings client a w result v t ∧ v.Noted w' ∧
      Stream Untouched call fuel root start (captures ++ t.shown) w' := by
  obtain ⟨t, v, account, noted⟩ := enumerate_account keeps ran normal
  exact ⟨t, v, account, noted, (account.closes.streams quiet stream).meanwhile noted.untouched⟩

theorem collect_streams {reply : List Solution}
    (ran : root.collect call fuel settings w = .ok reply w') :
    ∃ t, Collects call fuel root settings w reply w' t ∧
      Stream Untouched call fuel root start (captures ++ t.shown) w' := by
  obtain ⟨result, v, enumerated, replying⟩ := bind_ok ran
  cases normal : result.interrupt with
  | some why => rw [normal] at replying; cases replying
  | none =>
    rw [normal] at replying
    cases replying
    obtain ⟨t, u, account, noted, stream⟩ :=
      enumerate_streams keeps stream ⟨fun _ => .pure Untouched.steady _, fun _ _ =>
        .pure Untouched.steady _⟩ enumerated normal
    have shown : t.shown = result.found.toList := account.closes.collected.symm
    refine ⟨t, ⟨shown, ⟨result, u, account, noted⟩, ?_⟩, stream⟩
    rw [← shown]
    exact account.closes.collector_ends.imp_right fun ⟨u', ended⟩ => ⟨u', u, ended, noted⟩

end Calls

namespace Relation

/-- **The engine is a window on the solutions.**  Of a row of calls of the engine, each has a transcript
that accounts for what came of it and why it ended, and the solutions of the transcripts, one after the other, are those
that the calls of `solve` have come to.  If the callbacks are blind, they are those that calls of
`solve` alone come to. -/
theorem engine_is_a_window {served : List (Served κ σ)} (row : Row call fuel root start served w) :
    ∃ ts : List Transcript, List.Forall₂ (Served.Accounts call fuel root) served ts ∧
      Stream Untouched call fuel root start (ts.flatMap Transcript.shown) w ∧
      (call.Blind → ∃ v, Untouched v w ∧
        Stream (fun _ _ => False) call fuel root start (ts.flatMap Transcript.shown) v) := by
  have windows : ∃ ts : List Transcript, List.Forall₂ (Served.Accounts call fuel root) served ts ∧
      Stream Untouched call fuel root start (ts.flatMap Transcript.shown) w := by
    -- Each call shows what the stream comes to next.
    induction row with
    | start => exact ⟨[], .nil, .start⟩
    | first settings _ keeps ran ih =>
      obtain ⟨ts, accounts, stream⟩ := ih
      obtain ⟨t, looks, stream⟩ := first?_streams keeps stream ran
      refine ⟨ts ++ [t], List.rel_append accounts (.cons looks .nil), ?_⟩
      rw [List.flatMap_append, List.flatMap_singleton]
      exact stream
    | collect settings _ keeps ran ih =>
      obtain ⟨ts, accounts, stream⟩ := ih
      obtain ⟨t, collects, stream⟩ := collect_streams keeps stream ran
      refine ⟨ts ++ [t], List.rel_append accounts (.cons collects .nil), ?_⟩
      rw [List.flatMap_append, List.flatMap_singleton]
      exact stream
    | enumerate settings client a _ keeps quiet ran normal ih =>
      obtain ⟨ts, accounts, stream⟩ := ih
      obtain ⟨t, v, account, noted, stream⟩ := enumerate_streams keeps stream quiet ran normal
      refine ⟨ts ++ [t], List.rel_append accounts (.cons ⟨v, account, noted⟩ .nil), ?_⟩
      rw [List.flatMap_append, List.flatMap_singleton]
      exact stream
    | meanwhile _ same ih =>
      obtain ⟨ts, accounts, stream⟩ := ih
      exact ⟨ts, accounts, stream.meanwhile same⟩
  obtain ⟨ts, accounts, stream⟩ := windows
  exact ⟨ts, accounts, stream, fun blind => stream.undisturbed blind⟩

/-- Four values of a variable.  The first is looked for; a filter refuses the second, and the third reaches
the bound of the enumeration; the last is collected, and then there are no more. -/
theorem four_values_in_a_row :
    let x : Var := ⟨0, "X"⟩
    let root : Relation Function := .domain 0 x [.bool false, .bool true, .unit, .text "last"]
    let w : World Function Unit := { client := () }
    let client : Client Function Unit Nat := {
      accepts := fun s => return !(s.get? x).any Value.isTrue
      visit := fun n _ => return (n + 1, true) }
    ∃ s w₁ result w₂ reply w₃, result.tally = ⟨1, 1, 2, true⟩ ∧ reply.length = 1 ∧
      Row Function.call 8 root w
        [.first w (some s) w₁, .enumerated { maxSolutions := some 1 } client 0 w₁ result w₂,
          .collected {} w₂ reply w₃] w₃ ∧
      (∃ u v, root.solve Function.call 8 u = .ok false v ∧ v.Noted w₃) ∧
      ∃ ts : List Transcript, (ts.flatMap Transcript.shown).length = 4 ∧
        ∃ v, Stream (fun _ _ => False) Function.call 8 root w (ts.flatMap Transcript.shown) v := by
  intro x root w client
  have scope : root.scope = [x] := by simp [root, Relation.scope, gather, addNew, operands]
  let w₁ := (root.solve Function.call 8).final w
  have first : root.first? Function.call 8 {} w = .ok (some (Solution.capture w₁ [x])) w₁ := by
    rw [first?, bind_apply, prepare_of_idle rfl (by decide +kernel), scope]
    rfl
  let w₂ := (drive Function.call 8 { maxSolutions := some 1 } client root [x] 8 0 {}).final w₁
  have second : ∃ result v,
      drive Function.call 8 { maxSolutions := some 1 } client root [x] 8 0 {} w₁ = .ok result v ∧
        decide (result.tally = ⟨1, 1, 2, true⟩ ∧ result.interrupt = none ∧ v.tracing = false) = true :=
    exists_ok (by decide +kernel)
  obtain ⟨result, v, driven, seen⟩ := second
  obtain rfl : w₂ = v := final_of_ok driven
  obtain ⟨tally, normal, untraced⟩ := of_decide_eq_true seen
  have enumerated : root.enumerate Function.call 8 { maxSolutions := some 1 } client 0 w₁ =
      .ok result w₂ := by
    rw [enumerate_of_drive rfl (by decide +kernel) (scope ▸ driven) normal,
      World.record_of_untraced untraced]
  have third : ∃ all v, drive Function.call 8 {} collector root [x] 8 #[] {} w₂ = .ok all v ∧
      decide (all.found.toList.length = 1 ∧ all.interrupt = none ∧ v.tracing = false) = true :=
    exists_ok (by decide +kernel)
  obtain ⟨all, w₃, driven, seen⟩ := third
  obtain ⟨single, ended, untraced⟩ := of_decide_eq_true seen
  have collected : root.collect Function.call 8 {} w₂ = .ok all.found.toList w₃ := by
    rw [collect, bind_apply, enumerate_of_drive rfl (by decide +kernel) (scope ▸ driven) ended,
      World.record_of_untraced untraced]
    dsimp only
    rw [ended]
    rfl
  have quiet : client.Quiet :=
    ⟨fun _ => .pure Untouched.steady _, fun _ _ => .pure Untouched.steady _⟩
  have row := ((Row.start.first {} rfl first).enumerate { maxSolutions := some 1 } client 0 rfl quiet
    enumerated normal).collect {} rfl collected
  obtain ⟨ts, accounts, -, plain⟩ := engine_is_a_window row
  obtain ⟨v, -, stream⟩ := plain Function.blind
  obtain ⟨t, _, looks, others, rfl⟩ := List.forall₂_cons_left_iff.mp accounts
  obtain ⟨u, _, ⟨_, account, -⟩, last, rfl⟩ := List.forall₂_cons_left_iff.mp others
  obtain ⟨c, _, collects, none, rfl⟩ := List.forall₂_cons_left_iff.mp last
  obtain rfl := List.forall₂_nil_left_iff.mp none
  refine ⟨_, w₁, result, w₂, all.found.toList, w₃, tally, single, row,
    collects.ends.resolve_left (Option.some_ne_none _).symm, _, ?_, v, stream⟩
  -- The one solution that was looked for, the one taken and the one refused, and the one collected.
  have looked : t.shown.length = 1 := congrArg List.length looks.shown
  have judged := u.length_eq
  rw [← account.solutions, ← account.rejected, tally] at judged
  have enumerated : u.shown.length = 2 := (List.length_map ..).trans judged
  have gathered : c.shown.length = 1 := (congrArg List.length collects.shown).trans single
  rw [List.flatMap_cons, List.flatMap_cons, List.flatMap_singleton, List.length_append,
    List.length_append, looked, enumerated, gathered]

end Relation
end RelationSearch
