import RelationSearch.Proofs.Termination

/-! # Which bindings survive

A domain *claims* its variable from when it found the variable unbound and began to offer values until it is
reset, and a conversion its target from when it bound it until it gives it up (`Relation.Owned`).  A
claim is a note at the leaf's node.  It says nothing of the value, so that it also covers a value which
the client puts there while the claim lasts.

Calls on a graph take away or replace claimed bindings only, and never begin to claim a variable that is
bound (`Trail.spares`).  So a binding survives whatever the graph is put through later exactly if no leaf
claims the variable (`Relation.binding_survives_iff_unclaimed`).  An exhausted domain has unbound its
variable but goes on claiming it, and a reset takes away what the client puts there afterwards
(`Relation.exhausted_domain_unbinds_later_value`).
-/
namespace RelationSearch

open Act RelationSearch.Relation

variable {κ σ : Type} {call : Caller κ σ} {fuel : Nat} {root r s : Relation κ} {x : Var}
variable {w w' : World κ σ}

/-- Whatever was bound and claimed by no leaf has the same binding afterwards, and is not claimed. -/
theorem Trail.spares (trail : Trail r w w') (bound : (w.value x).isSome) (unclaimed : ¬ r.Owned w x) :
    w'.value x = w.value x ∧ (w'.cell x).generation = (w.cell x).generation ∧ ¬ r.Owned w' x := by
  have still : ¬ r.Owned w' x := by
    intro claimed
    have free : w.value x = none := ((trail x).gained claimed).resolve_left unclaimed
    rw [free] at bound
    cases bound
  exact ⟨(trail x).free unclaimed still, (trail x).generation unclaimed bound, still⟩

/-- What was claimed and is not any more is unbound. -/
theorem Trail.gives_up (trail : Trail r w w') (claimed : r.Owned w x) (unclaimed : ¬ r.Owned w' x) :
    w'.value x = none :=
  (trail x).lost claimed unclaimed

namespace Relation

/-- What may happen to a graph after the world `w` while the client leaves the variable `x` alone: calls on
its nodes, each with any outcome, and between them anything that leaves the nodes and `x` as they are. -/
inductive Onward (call : Caller κ σ) (root : Relation κ) (x : Var) (w : World κ σ) :
    World κ σ → Prop
  | start : Onward call root x w w
  | solve {v : World κ σ} (run : Onward call root x w v) {s : Relation κ} (hs : s ∈ root.subs)
      (fuel : Nat) : Onward call root x w ((s.solve call fuel).final v)
  | reset {v : World κ σ} (run : Onward call root x w v) {s : Relation κ} (hs : s ∈ root.subs) :
    Onward call root x w (s.reset.final v)
  | meanwhile {v v' : World κ σ} (run : Onward call root x w v) (nodes : v'.nodes = v.nodes)
      (cell : v'.cell x = v.cell x) : Onward call root x w v'

theorem Onward.reachable (run : Onward call root x w w') (before : Reachable call root w) :
    Reachable call root w' := by
  induction run with
  | start => exact before
  | solve _ hs fuel ih => exact .solve ih hs fuel
  | reset _ hs ih => exact .reset ih hs
  | meanwhile _ nodes _ ih => exact .meanwhile ih nodes

/-- A binding that no leaf claims stays as it is. -/
theorem Onward.spares (quiet : call.Quiet) (coherent : root.Coherent) (before : Reachable call root w)
    (run : Onward call root x w w') (bound : (w.value x).isSome) (unclaimed : ¬ root.Owned w x) :
    w'.value x = w.value x ∧ (w'.cell x).generation = (w.cell x).generation ∧
      ¬ root.Owned w' x := by
  induction run with
  | start => exact ⟨rfl, rfl, unclaimed⟩
  | @solve v run s hs fuel ih =>
    obtain ⟨value, generation, unclaimed'⟩ := ih
    have poised := ((run.reachable before).in_order quiet coherent).1
    have trail : Trail root v ((s.solve call fuel).final v) := poised.trail_solve quiet coherent hs
    obtain ⟨same, still, after⟩ := trail.spares (value ▸ bound) unclaimed'
    exact ⟨same.trans value, still.trans generation, after⟩
  | @reset v run s hs ih =>
    obtain ⟨value, generation, unclaimed'⟩ := ih
    have poised := ((run.reachable before).in_order quiet coherent).1
    obtain ⟨same, still, after⟩ := (poised.trail_reset coherent hs).spares (value ▸ bound) unclaimed'
    exact ⟨same.trans value, still.trans generation, after⟩
  | @meanwhile v v' run nodes cell ih =>
    obtain ⟨value, generation, unclaimed'⟩ := ih
    refine ⟨(congrArg Cell.value cell).trans value, (congrArg Cell.generation cell).trans generation, ?_⟩
    intro claimed
    exact unclaimed' (claimed.congr fun m _ =>
      congrArg Node.progress (congrArg (Table.get · m) nodes).symm)

/-- A reset takes away every binding that is claimed, whoever made it. -/
theorem reset_unbinds_claimed (quiet : call.Quiet) (coherent : root.Coherent)
    (before : Reachable call root w) (claimed : root.Owned w x) :
    (root.reset.final w).value x = none := by
  obtain ⟨poised, idle⟩ := before.in_order quiet coherent
  obtain ⟨w', ran, ready⟩ := reset_ready coherent idle
  have trail := poised.trail_reset coherent (mem_subs_self root)
  rw [final_of_ok ran] at trail ⊢
  exact trail.gives_up claimed (not_owned_of_fresh fun m hm => (ready m hm).1)

/-- **A binding survives if and only if no leaf claims it.**  The graph may have been through any calls with
any outcome, while the client set and unset variables, before the binding is looked at, and goes
through any such things afterwards, but that the client leaves the variable alone.  And a leaf that takes
away or replaces a binding in a call, wherever that call stands, claimed it before. -/
theorem binding_survives_iff_unclaimed (quiet : call.Quiet) (coherent : root.Coherent)
    (run : Reachable call root w) (bound : (w.value x).isSome) :
    ((∀ w', Onward call root x w w' →
        w'.value x = w.value x ∧ (w'.cell x).generation = (w.cell x).generation) ↔
      ¬ root.Owned w x) ∧
    ∀ s ∈ root.subs, s.IsLeaf → ∀ v : World κ σ, s.Poised v → (v.value x).isSome → ¬ s.Owns v x →
      (∀ fuel, ((s.solve call fuel).final v).value x = v.value x ∧
        (((s.solve call fuel).final v).cell x).generation = (v.cell x).generation) ∧
      ((s.reset.final v).value x = v.value x ∧
        ((s.reset.final v).cell x).generation = (v.cell x).generation) := by
  refine ⟨⟨fun survives claimed => ?_, fun unclaimed w' later => ?_⟩, ?_⟩
  · have kept := (survives _ (.reset .start (mem_subs_self root))).1
    rw [reset_unbinds_claimed quiet coherent run claimed] at kept
    rw [← kept] at bound
    cases bound
  · obtain ⟨value, generation, -⟩ := later.spares quiet coherent run bound unclaimed
    exact ⟨value, generation⟩
  · intro s hs leaf v poised held unclaimed
    have own : s.Coherent := coherent.mono hs
    have unowned : ¬ s.Owned v x := by
      rintro ⟨t, ht, owns⟩
      rw [subs_of_isLeaf leaf] at ht
      exact unclaimed (List.mem_singleton.mp ht ▸ owns)
    refine ⟨fun fuel => ?_, ?_⟩
    · have trail : Trail s v ((s.solve call fuel).final v) :=
        poised.trail_solve quiet own (mem_subs_self s)
      obtain ⟨value, generation, -⟩ := trail.spares held unowned
      exact ⟨value, generation⟩
    · obtain ⟨value, generation, -⟩ := (poised.trail_reset own (mem_subs_self s)).spares held unowned
      exact ⟨value, generation⟩

/-- A variable that the client binds before the first call keeps its value, whether the domain over it holds
or is exhausted or is reset. -/
theorem prebound_variable_survives :
    let x : Var := ⟨0, "X"⟩
    let root : Relation Function := .domain 0 x [.bool false, .bool true]
    let w := ({ client := () } : World Function Unit).modifyCell x (·.put (.bool true))
    ∀ w', Onward Function.call root x w w' → w'.value x = some (.bool true) := by
  intro x root w w' later
  have run : Reachable Function.call root w :=
    .meanwhile (.built (.blank root ())) rfl
  have survives := binding_survives_iff_unclaimed (x := x) Function.quiet (.of_nodup (by decide)) run rfl
  have unclaimed : ¬ root.Owned w x :=
    not_owned_of_fresh fun m hm => by
      rw [List.mem_singleton.mp hm]
      rfl
  exact (survives.1.mpr unclaimed w' later).1

/-- A domain goes through its candidates and unbinds its variable, the client binds it, and a reset of the
domain unbinds it again. -/
theorem exhausted_domain_unbinds_later_value :
    let x : Var := ⟨0, "X"⟩
    let root : Relation Function := .domain 0 x [.bool false]
    ∃ found spent bound w' : World Function Unit,
      root.solve Function.call 8 { client := () } = .ok true found ∧
      root.solve Function.call 8 found = .ok false spent ∧ spent.value x = none ∧
      x.bind Function.call (.bool true) spent = .ok true bound ∧
      bound.value x = some (.bool true) ∧
      root.reset bound = .ok ⟨⟩ w' ∧ w'.value x = none :=
  ⟨_, _, _, _, rfl, rfl, rfl, rfl, rfl, rfl, rfl⟩

end Relation
end RelationSearch
