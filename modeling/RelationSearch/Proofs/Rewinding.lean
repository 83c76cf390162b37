import RelationSearch.Proofs.Frame

/-! # Resetting

A call of `reset` runs no callback, so that nothing can go wrong in it: on a relation that nobody is
driving it always comes back, and every node of the relation is fresh then (`Relation.reset_ready`).
-/
namespace RelationSearch

open Act

variable {κ σ : Type} {w w' : World κ σ} {root r s t l : Relation κ} {n : Nat}

namespace Relation

/-- Nobody is driving a node. -/
def Idle (r : Relation κ) (w : World κ σ) : Prop := ∀ m ∈ r.ids, (w.node m).busy = false

/-- Every node is fresh and nobody is driving it. -/
def Ready (r : Relation κ) (w : World κ σ) : Prop :=
  ∀ m ∈ r.ids, (w.node m).progress = .fresh ∧ (w.node m).busy = false

/-- In a new world every relation is ready. -/
theorem Ready.blank (r : Relation κ) (client : σ) : r.Ready ({ client } : World κ σ) := by
  intro m _
  simp only [World.node, Table.get_empty]
  exact ⟨rfl, rfl⟩

theorem Ready.idle (h : r.Ready w) : r.Idle w := fun m hm => (h m hm).2

theorem Ready.mono (h : root.Ready w) (hs : s ∈ root.subs) : s.Ready w :=
  fun m hm => h m (mem_ids_of_mem_subs hs hm)

theorem Ready.congr (h : r.Ready w) (hn : ∀ m ∈ r.ids, w'.node m = w.node m) : r.Ready w' :=
  fun m hm => hn m hm ▸ h m hm

theorem Ready.beside (h : s.Ready w) (ready : t.Ready w')
    (same : ∀ m, m ∉ t.ids → w'.node m = w.node m) : s.Ready w' := by
  intro m hs
  by_cases hm : m ∈ t.ids
  · exact ready m hm
  · rw [same m hm]; exact h m hs

theorem Idle.mono (h : root.Idle w) (hs : s ∈ root.subs) : s.Idle w :=
  fun m hm => h m (mem_ids_of_mem_subs hs hm)

/-- Whatever is idle stays so, since nothing stays busy. -/
theorem Idle.within (h : s.Idle w) (frame : Within r w w') : s.Idle w' :=
  fun m hm => (frame.busy m).trans (h m hm)

theorem Idle.setBusy (h : r.Idle w) (hn : n ∉ r.ids) (busy : Bool) :
    r.Idle (w.setBusy n busy) := by
  intro m hm
  have ne : n ≠ m := fun e => hn (e ▸ hm)
  rw [World.node_setBusy_of_ne _ _ ne]
  exact h m hm

theorem releaseTarget_of_owning {y : Var} {generation : Nat}
    (progress : (w.node n).progress = .applied generation true) :
    releaseTarget n y w =
      .ok ⟨⟩ ((w.modifyCell y Cell.clear).noted n (.applied generation false)) := by
  rw [releaseTarget, bind_apply, progress_apply]
  simp only [progress, bind_apply, unbind_apply, setProgress_apply]

theorem releaseTarget_of_spent {y : Var}
    (spent : ∀ generation, (w.node n).progress ≠ .applied generation true) :
    releaseTarget n y w = .ok ⟨⟩ w := by
  rw [releaseTarget, bind_apply, progress_apply]
  cases progress : (w.node n).progress with
  | applied generation ownsTarget =>
    cases ownsTarget with
    | true => exact absurd progress (spent generation)
    | false => rfl
  | _ => rfl

theorem dropWatches_ok (entries : List (Var × Nat)) (w : World κ σ) :
    ∃ w', dropWatches entries w = .ok ⟨⟩ w' := by
  induction entries generalizing w with
  | nil => exact ⟨w, rfl⟩
  | cons entry rest ih => exact ih _

theorem retract_ok (s : Relation κ) (w : World κ σ) : ∃ w', retract s w = .ok ⟨⟩ w' := by
  cases s with
  | domain n x values =>
    simp only [retract, bind_apply, progress_apply]
    cases (w.node n).progress <;> exact ⟨_, rfl⟩
  | convert n x y f =>
    simp only [retract, releaseTarget, bind_apply, progress_apply]
    cases (w.node n).progress with
    | applied generation ownsTarget => cases ownsTarget <;> exact ⟨_, rfl⟩
    | _ => exact ⟨_, rfl⟩
  | compare n x y c =>
    simp only [retract, bind_apply, progress_apply]
    cases (w.node n).progress with
    | fired entries => exact dropWatches_ok entries w
    | _ => exact ⟨_, rfl⟩
  | and | or | predicate | always | never => exact ⟨w, rfl⟩

/-- Resetting two relations, one after the other. -/
theorem reset_both (idleS : s.Idle w) (idleT : t.Idle w)
    (first : ∀ {w : World κ σ}, s.Idle w →
      ∃ w', (s.reset : Act κ σ Unit) w = .ok ⟨⟩ w' ∧ s.Ready w')
    (second : ∀ {w : World κ σ}, t.Idle w →
      ∃ w', (t.reset : Act κ σ Unit) w = .ok ⟨⟩ w' ∧ t.Ready w') :
    ∃ w', (do s.reset; t.reset : Act κ σ Unit) w = .ok ⟨⟩ w' ∧ s.Ready w' ∧ t.Ready w' := by
  obtain ⟨w₁, ran₁, ready₁⟩ := first idleS
  obtain ⟨w₂, ran₂, ready₂⟩ := second (idleT.within ((reset_frame s).of_ok ran₁))
  refine ⟨w₂, ?_, ready₁.beside ready₂ ((reset_frame t).of_ok ran₂).node, ready₂⟩
  rw [bind_apply, ran₁]
  exact ran₂

/-- A call of `reset` on a node whose parts are ready once the undoing is done. -/
theorem rewinding_ready {undo : Act κ σ Unit} {w₁ : World κ σ}
    (idle : (w.node r.node).busy = false) (ran : undo (w.setBusy r.node true) = .ok ⟨⟩ w₁)
    (ready : ∀ s ∈ r.parts, s.Ready w₁) :
    rewinding r undo w = .ok ⟨⟩ (w₁.rewound r) ∧ r.Ready (w₁.rewound r) := by
  refine ⟨by rw [rewinding_of_idle idle, ran], fun m hm => ?_⟩
  by_cases h : r.node = m
  · subst h
    exact ⟨World.progress_rewound .., World.busy_rewound ..⟩
  · obtain ⟨s, hs, rfl⟩ := List.mem_map.mp hm
    rw [World.node_rewound_of_ne _ _ h]
    rcases eq_or_mem_part hs with rfl | ⟨t, ht, hst⟩
    · exact absurd rfl h
    · exact ready t ht _ (List.mem_map_of_mem hst)

/-- **A reset always comes back** on an idle relation, and leaves every node fresh. -/
theorem reset_ready (coherent : r.Coherent) (idle : r.Idle w) :
    ∃ w', (r.reset : Act κ σ Unit) w = .ok ⟨⟩ w' ∧ r.Ready w' := by
  induction r generalizing w with
  | and n a b iha ihb =>
    have ha : a ∈ (Relation.and n a b).subs := left_sub_and
    have hb : b ∈ (Relation.and n a b).subs := right_sub_and
    obtain ⟨w₁, ran, readyB, readyA⟩ := reset_both
      ((idle.mono hb).setBusy (coherent.node_not_mem right_part_and) true)
      ((idle.mono ha).setBusy (coherent.node_not_mem left_part_and) true)
      (ihb (coherent.mono hb)) (iha (coherent.mono ha))
    exact ⟨_, rewinding_ready (idle n (node_mem_ids _)) ran (forall_parts_and readyA readyB)⟩
  | or n a b iha ihb =>
    have ha : a ∈ (Relation.or n a b).subs := left_sub_or
    have hb : b ∈ (Relation.or n a b).subs := right_sub_or
    obtain ⟨w₁, ran, readyA, readyB⟩ := reset_both
      ((idle.mono ha).setBusy (coherent.node_not_mem left_part_or) true)
      ((idle.mono hb).setBusy (coherent.node_not_mem right_part_or) true)
      (iha (coherent.mono ha)) (ihb (coherent.mono hb))
    exact ⟨_, rewinding_ready (idle n (node_mem_ids _)) ran (forall_parts_or readyA readyB)⟩
  | domain | convert | compare | predicate | always | never =>
    obtain ⟨w₁, ran⟩ := retract_ok _ (w.setBusy _ true)
    exact ⟨_, rewinding_ready (idle _ (node_mem_ids _)) ran nofun⟩

end Relation
end RelationSearch
