import RelationSearch.Proofs.Accounts
import RelationSearch.Proofs.Enumerations

/-! # A reset graph is as good as new

A graph that nothing else drives may have been searched in any way: solved, reset and enumerated, each call
with any outcome, and with client code in between that leaves the variables alone (`Driven`).  Reset
then, it is as it was built: every node is fresh, every variable shows the value and the watches that it
showed in the beginning, and what follows is what follows on a new copy of the graph, call by call and
enumeration by enumeration (`Relation.reset_as_built`).

The generations of the variables are not restored, and the proof does not pretend that they are: that they
make no difference is `Twin.solve`.
-/
namespace RelationSearch

open Act RelationSearch.Relation

variable {κ σ α : Type} {w w' v base : World Function σ} {root : Relation Function}
variable {ρ : Nat → Nat}

/-! ## Histories -/

/-- A history of a graph that nothing else drives, since the world `base`. -/
inductive Driven (root : Relation Function) (base : World Function σ) : World Function σ → Prop
  | start : Driven root base base
  | solve {w : World Function σ} (fuel : Nat) (run : Driven root base w) :
    Driven root base ((root.solve Function.call fuel).final w)
  | reset {w : World Function σ} (run : Driven root base w) :
    Driven root base (root.reset.final w)
  | first? {w : World Function σ} (fuel : Nat) (settings : Settings) (run : Driven root base w) :
    Driven root base ((root.first? Function.call fuel settings).final w)
  | enumerate {α : Type} {w : World Function σ} (fuel : Nat) (settings : Settings)
      (client : Client Function σ α) (quiet : client.Quiet) (start : α) (run : Driven root base w) :
    Driven root base ((root.enumerate Function.call fuel settings client start).final w)
  | meanwhile {w w' : World Function σ} (run : Driven root base w) (same : Untouched w w') :
    Driven root base w'

theorem Driven.keeps {P : World Function σ → World Function σ → Prop} (hP : Steady P)
    (untouched : ∀ {w w'}, Untouched w w' → P w w')
    (solve : ∀ fuel, Keeps P (root.solve Function.call fuel)) (reset : Keeps P root.reset)
    (run : Driven root base w) : P base w := by
  induction run with
  | start => exact hP.refl base
  | solve fuel _ ih => exact hP.trans ih (solve fuel _)
  | reset _ ih => exact hP.trans ih (reset _)
  | first? fuel settings _ ih =>
    exact hP.trans ih (first?_keeps hP untouched (solve fuel) reset _)
  | enumerate fuel settings client quiet start _ ih =>
    exact hP.trans ih (enumerate_keeps hP untouched (solve fuel) reset quiet start _)
  | meanwhile _ same ih => exact hP.trans ih (untouched same)

theorem Untouched.within (h : Untouched w w') (r : Relation Function) : Within r w w' :=
  ⟨fun m _ => h.node m, fun m => by rw [h.node]⟩

/-- What happens to a driven graph keeps all books. -/
theorem Driven.keepsBooks {A : Nat → Cell Function → Prop → (Nat → Prop) → Prop}
    (ledger : Ledger A) (coherent : root.Coherent) (run : Driven root base w) :
    KeepsBooks A root base w :=
  run.keeps (KeepsBooks.steady A root) (fun same books => books.untouched ledger same)
    (fun _ => Books.solve ledger Function.quiet coherent (mem_subs_self root))
    (Books.reset ledger coherent (mem_subs_self root))

/-- Watches stay numbered, so that what is proved of a driven graph is true of it again later. -/
theorem Driven.numbered (coherent : root.Coherent) (ready : root.Ready base)
    (numbered : base.Numbered) (run : Driven root base w) : w.Numbered := by
  have proper := proper_of_fresh fun m hm => (ready m hm).1
  exact (run.keepsBooks World.Numbered.ledger coherent ⟨numbered, proper⟩).cells

/-- **A driven graph can be reset**, and the reset restores every variable. -/
theorem Driven.restores (coherent : root.Coherent) (ready : root.Ready base)
    (numbered : base.Numbered) (run : Driven root base w) :
    ∃ w', (root.reset : Act Function σ Unit) w = .ok ⟨⟩ w' ∧ root.Ready w' ∧ Restored base w' := by
  have ledger := Cell.Accounted.ledger numbered
  have kept : KeepsBooks _ root base w := run.keepsBooks ledger coherent
  have within : Within root base w :=
    run.keeps (Within.steady root) (fun same => same.within root)
      (fun fuel => solve_frame Function.sparesNodes root) (reset_frame root)
  obtain ⟨w', ran, ready'⟩ := reset_ready coherent (ready.idle.within within)
  have accounted : Accounted base root w := kept (Accounted.start fun m hm => (ready m hm).1)
  have accounted' := (Books.reset ledger coherent (mem_subs_self root)).of_ok ran accounted
  exact ⟨w', ran, ready', Accounted.restored accounted' fun m hm => (ready' m hm).1⟩

/-! ## New copies -/

/-- A new copy of the graph, in a world whose variables show what they show in the world `base`. -/
structure NewCopy (root : Relation Function) (base : World Function σ) (ρ : Nat → Nat)
    (v : World Function σ) : Prop where
  injective : ∀ m ∈ root.ids, ∀ n ∈ root.ids, ρ m = ρ n → m = n
  ready : (root.renumber ρ).Ready v
  value : ∀ x, v.value x = base.value x
  duties : ∀ x, (v.cell x).watches.map Watch.duty = (base.cell x).watches.map Watch.duty
  numbered : v.Numbered

theorem Relation.subs_renumber (ρ : Nat → Nat) (r : Relation κ) :
    (r.renumber ρ).subs = r.subs.map (·.renumber ρ) := by
  induction r with
  | and n l r ihl ihr | or n l r ihl ihr =>
    simp only [renumber, subs, List.map_cons, List.map_append, ihl, ihr]
  | domain | convert | compare | predicate | always | never => rfl

theorem Relation.Coherent.renumber (coherent : root.Coherent)
    (injective : ∀ m ∈ root.ids, ∀ n ∈ root.ids, ρ m = ρ n → m = n) :
    (root.renumber ρ).Coherent := by
  intro a ha b hb same
  rw [subs_renumber] at ha hb
  obtain ⟨s, hs, rfl⟩ := List.mem_map.mp ha
  obtain ⟨t, ht, rfl⟩ := List.mem_map.mp hb
  rw [node_renumber, node_renumber] at same
  rw [coherent s hs t ht (injective _ (List.mem_map_of_mem hs) _ (List.mem_map_of_mem ht) same)]

/-- A copy stays new when its world is restored. -/
theorem NewCopy.restored {v' : World Function σ} (copy : NewCopy root base ρ v)
    (ready : (root.renumber ρ).Ready v') (back : Restored v v') : NewCopy root base ρ v' where
  injective := copy.injective
  ready := ready
  value x := (back.value x).trans (copy.value x)
  duties x := by rw [(back x).watches]; exact copy.duties x
  numbered := copy.numbered.of_restored back

/-- The graph, ready in a restored world, and a new copy of it. -/
def NewCopy.twin (copy : NewCopy root base ρ v) (coherent : root.Coherent) (w : World Function σ)
    (client : σ → σ → Prop) : Twin σ where
  root
  coherent
  number := ρ
  injective := copy.injective
  left := w
  right := v
  client

theorem NewCopy.alike (copy : NewCopy root base ρ v) (coherent : root.Coherent)
    (numbered : base.Numbered) (ready : root.Ready w) (back : Restored base w)
    {client : σ → σ → Prop} (states : client w.client v.client) :
    (copy.twin coherent w client).Alike (fun _ => false) w v where
  cell x := by
    refine .start ?_ ?_ (numbered.of_restored back x) (copy.numbered x)
    · exact (copy.value x).trans (back.value x).symm
    · exact (congrArg (List.map Watch.duty) (back x).watches).trans (copy.duties x).symm
  pauses s hs := by
    have here := (ready _ (List.mem_map_of_mem hs)).1
    have there := (copy.ready (ρ s.node) (ids_renumber ρ root ▸
      List.mem_map_of_mem (List.mem_map_of_mem hs))).1
    change Twin.Pauses _ s (w.node s.node).progress (v.node (ρ s.node)).progress
    rw [here, there]
    exact .fresh
  busy m hm :=
    ⟨(ready m hm).2, (copy.ready (ρ m) (ids_renumber ρ root ▸ List.mem_map_of_mem hm)).2⟩
  client := states

/-! ## What follows a reset -/

/-- What a computation answers, or why it was interrupted. -/
def Act.reply (act : Act κ σ α) (w : World κ σ) : Except Interrupt α :=
  match act w with
  | .ok a _ => .ok a
  | .error why _ => .error why

theorem Matches.reply {R : World κ σ → World κ σ → Prop} {act act' : Act κ σ α} {w v : World κ σ}
    (h : Matches Eq R (act w) (act' v)) : act.reply w = act'.reply v := by
  unfold Act.reply
  generalize act w = result, act' v = result' at h
  cases h with
  | ok values _ => rw [values]
  | error _ => rfl

/-- The replies of successive calls of `solve`, each with what some variables hold then. -/
def Relation.replies (call : Caller κ σ) (fuel : Nat) (r : Relation κ) (xs : List Var) :
    Nat → Act κ σ (List (Except Interrupt Bool × Solution))
  | 0 => return []
  | k + 1 => do
    let reply ← Act.attempt (r.solve call fuel)
    let held := Solution.capture (← get) xs
    return (reply, held) :: (← r.replies call fuel xs k)

theorem Twin.replies {T : Twin σ} {busy : Nat → Bool} (idle : ∀ m, busy m = false) (fuel : Nat)
    (xs : List Var) (k : Nat) :
    Relates Eq (T.Alike busy) (T.root.replies Function.call fuel xs k)
      ((T.root.renumber T.number).replies Function.call fuel xs k) := by
  induction k with
  | zero => exact .pure rfl
  | succ k ih =>
    refine (solve (mem_subs_self _) fun m _ => idle m).attempt.bind fun reply _ e => ?_
    subst e
    refine .get_bind fun w v alike => ?_
    rw [alike.capture]
    exact ih.bind fun rest _ e => by subst e; exact .pure rfl

/-- A new copy can be reset, and is as new as before. -/
theorem NewCopy.reset (copy : NewCopy root base ρ v) (coherent : root.Coherent) :
    ∃ v', (root.renumber ρ).reset v = .ok ⟨⟩ v' ∧ NewCopy root base ρ v' ∧
      v'.client = v.client := by
  obtain ⟨v', ran, ready, back⟩ :=
    Settled.reset (coherent.renumber copy.injective) copy.ready.settled
  exact ⟨v', ran, copy.restored ready back, (reset_client _).of_ok ran⟩

namespace Relation

/-- **After a reset, a graph is as it was built.**  Whatever was done with the graph before, the reset
comes back.  Then every node is ready, and every variable shows the value and the watches it showed
before the first call.  The replies of all later calls are those of a new copy of the graph, whatever
the generations of the variables are in its world; and an enumeration or a search for one solution that
resets first replies on the driven graph what it replies on the new copy. -/
theorem reset_as_built (coherent : root.Coherent) (ready : root.Ready base)
    (numbered : base.Numbered) (run : Driven root base w) :
    ∃ w', (root.reset : Act Function σ Unit) w = .ok ⟨⟩ w' ∧ root.Ready w' ∧ Restored base w' ∧
      ∀ ρ v, NewCopy root base ρ v →
        (∀ fuel xs k, (root.replies Function.call fuel xs k).reply w' =
          ((root.renumber ρ).replies Function.call fuel xs k).reply v) ∧
        ∀ settings : Settings, settings.resetBeforeSolve = true → ∀ fuel,
          (root.first? Function.call fuel settings).reply w =
            ((root.renumber ρ).first? Function.call fuel settings).reply v ∧
          (v.client = w.client → ∀ {α : Type} (client : Client Function σ α) (start : α),
            client.Private →
            (root.enumerate Function.call fuel settings client start).reply w =
              ((root.renumber ρ).enumerate Function.call fuel settings client start).reply v) := by
  obtain ⟨w', ran, ready', back⟩ := run.restores coherent ready numbered
  refine ⟨w', ran, ready', back, fun ρ v copy => ⟨fun fuel xs k => ?_, ?_⟩⟩
  · have alike : (copy.twin coherent w' fun _ _ => True).Alike (fun _ => false) w' v :=
      copy.alike coherent numbered ready' back trivial
    exact (Twin.replies (fun _ => rfl) fuel xs k _ _ alike).reply
  · intro settings asked fuel
    obtain ⟨v', ran', copy', same⟩ := copy.reset coherent
    -- Once both have been reset, they look alike.
    have resets {client : σ → σ → Prop} (states : client w'.client v'.client) :
        Matches Eq ((copy'.twin coherent w' client).Alike fun _ => false) (root.reset w)
          ((root.renumber ρ).reset v) := by
      rw [ran, ran']
      exact .ok rfl (copy'.alike coherent numbered ready' back states)
    refine ⟨?_, fun states α client start secret => ?_⟩
    · exact (Twin.first? (T := copy'.twin coherent w' fun _ _ => True) (fun _ => rfl) asked
        (resets trivial)).reply
    · have agree : w'.client = v'.client :=
        ((reset_client root).of_ok ran).trans (states.symm.trans same.symm)
      exact (Twin.enumerate (T := copy'.twin coherent w' Eq) (fun _ => rfl) asked secret rfl
        (resets agree) start).reply

theorem shared_side_binds :
    let side : Relation Function := .domain 1 ⟨0, "X"⟩ [.bool false, .bool true]
    (((Relation.and 0 side side).solve Function.call 8).final
      ({ client := () } : World Function Unit)).value ⟨0, "X"⟩ = some (.bool true) := rfl

/-- The same domain on both sides of a conjunction.  The first call binds its variable; after a reset the
variable is unbound, and the conjunction is as good as one with other nodes in a new world. -/
theorem shared_side_as_built :
    let x : Var := ⟨0, "X"⟩
    let side : Relation Function := .domain 1 x [.bool false, .bool true]
    let root : Relation Function := .and 0 side side
    let new : World Function Unit := { client := () }
    let w := (root.solve Function.call 8).final new
    let settings : Settings := { resetBeforeSolve := true }
    ∃ w', root.reset w = .ok ⟨⟩ w' ∧ w.value x = some (.bool true) ∧ w'.value x = none ∧
      (∀ fuel xs k, (root.replies Function.call fuel xs k).reply w' =
        ((root.renumber (· + 2)).replies Function.call fuel xs k).reply new) ∧
      (root.enumerate Function.call 8 settings collector #[]).reply w =
        ((root.renumber (· + 2)).enumerate Function.call 8 settings collector #[]).reply new := by
  intro x side root new w settings
  have coherent : root.Coherent := by
    intro s hs t ht same
    have both : root.subs = [root, side, side] := rfl
    simp only [both, List.mem_cons, List.not_mem_nil, or_false] at hs ht
    rcases hs with rfl | rfl | rfl <;> rcases ht with rfl | rfl | rfl <;>
      first | rfl | exact absurd same (by decide)
  have numbered : new.Numbered := (World.Shows.blank ()).numbered
  have copy : NewCopy root new (· + 2) new :=
    ⟨fun m _ n _ same => by omega, .blank _ _, fun _ => rfl, fun _ => rfl, numbered⟩
  obtain ⟨w', ran, -, back, follows⟩ :=
    reset_as_built coherent (.blank root ()) numbered (.solve 8 .start : Driven root new w)
  obtain ⟨replies, engine⟩ := follows _ _ copy
  refine ⟨w', ran, shared_side_binds, (back x).value, replies, ?_⟩
  exact (engine settings rfl 8).2 (Subsingleton.elim ..) collector #[] collector_private

end Relation
end RelationSearch
