import RelationSearch.Proofs.Rewinding
import RelationSearch.Proofs.Meaning

/-! # Restored worlds

What a search has to put back when it is exhausted.  A world is *restored* (`Restored`) when every
variable shows the same value and the same watches again; a bound variable must never have been
touched, so its generation is the same as well.  A world *shows* an environment (`World.Shows`) when the
values agree and the watches on every unbound variable are the pending comparisons on it.

A relation is *settled* (`Relation.Settled`) when none of its leaves holds anything: the domains have no
variable bound, the conversions own no target, the comparisons have no watch.  Resetting a settled
relation makes it ready to be searched again and changes nothing that a variable shows
(`Relation.Settled.reset`).  Shared nodes need no care here: settling is a property of single leaves.
-/
namespace RelationSearch

open Act RelationSearch.Relation

variable {κ σ : Type}

/-! ## Restored worlds -/

/-- The cell shows the same value and watches again, and if a value, through the same generation. -/
structure Cell.Restored (c c' : Cell κ) : Prop where
  value : c'.value = c.value
  watches : c'.watches = c.watches
  nextWatch : c.nextWatch ≤ c'.nextWatch
  generation : c.value.isSome → c'.generation = c.generation

theorem Cell.Restored.refl (c : Cell κ) : c.Restored c := ⟨rfl, rfl, Nat.le_refl _, fun _ => rfl⟩

theorem Cell.Restored.trans {a b c : Cell κ} (h : a.Restored b) (g : b.Restored c) :
    a.Restored c where
  value := g.value.trans h.value
  watches := g.watches.trans h.watches
  nextWatch := Nat.le_trans h.nextWatch g.nextWatch
  generation bound := (g.generation (h.value ▸ bound)).trans (h.generation bound)

/-- Every variable shows again what it showed. -/
def Restored (w w' : World κ σ) : Prop := ∀ x, (w.cell x).Restored (w'.cell x)

/-- Every other variable shows again what it showed, and `x` has the same watches. -/
structure RestoredBut (x : Var) (w w' : World κ σ) : Prop where
  other : ∀ y, y.id ≠ x.id → (w.cell y).Restored (w'.cell y)
  watches : (w'.cell x).watches = (w.cell x).watches
  nextWatch : (w.cell x).nextWatch ≤ (w'.cell x).nextWatch

theorem cell_congr (w : World κ σ) {x y : Var} (h : x.id = y.id) : w.cell x = w.cell y := by
  simp [World.cell, h]

theorem World.cell_modifyCell (w : World κ σ) (x y : Var) (f : Cell κ → Cell κ) :
    (w.modifyCell x f).cell y = if x.id = y.id then f (w.cell y) else w.cell y := by
  split
  · rename_i here
    rw [← cell_congr _ here, cell_modifyCell_self, cell_congr w here]
  · rename_i there
    exact cell_modifyCell_of_ne _ _ there

theorem Restored.refl (w : World κ σ) : Restored w w := fun _ => .refl _

theorem Restored.trans {u v w : World κ σ} (h : Restored u v) (g : Restored v w) : Restored u w :=
  fun x => (h x).trans (g x)

theorem Restored.value {w w' : World κ σ} (h : Restored w w') (x : Var) : w'.value x = w.value x :=
  (h x).value

/-- Worlds with the same cells show the same. -/
theorem Restored.of_cells {w w' : World κ σ} (h : ∀ x, w'.cell x = w.cell x) : Restored w w' :=
  fun x => h x ▸ .refl _

theorem Restored.noted (w : World κ σ) (n : Nat) (p : Progress) : Restored w (w.noted n p) :=
  .of_cells fun _ => rfl

theorem Restored.record (w : World κ σ) (event : World κ σ → Event) :
    Restored w (w.record event) :=
  .of_cells fun x => by simp

theorem Restored.but {w w' : World κ σ} (h : Restored w w') (x : Var) : RestoredBut x w w' :=
  ⟨fun y _ => h y, (h x).watches, (h x).nextWatch⟩

theorem RestoredBut.trans {x : Var} {u v w : World κ σ} (h : RestoredBut x u v)
    (g : RestoredBut x v w) : RestoredBut x u w :=
  ⟨fun y hy => (h.other y hy).trans (g.other y hy), g.watches.trans h.watches,
    Nat.le_trans h.nextWatch g.nextWatch⟩

/-- A variable that was unbound, and is unbound again, is restored too. -/
theorem RestoredBut.restored {x : Var} {w w' : World κ σ} (h : RestoredBut x w w')
    (free : w.value x = none) (again : w'.value x = none) : Restored w w' := by
  intro y
  by_cases hy : y.id = x.id
  · rw [cell_congr w hy, cell_congr w' hy]
    refine ⟨again.trans free.symm, h.watches, h.nextWatch, fun bound => ?_⟩
    rw [show (w.cell x).value = none from free] at bound
    cases bound
  · exact h.other y hy

/-- The variable's watches stay as they are. -/
def Cell.KeepsWatches (f : Cell κ → Cell κ) : Prop :=
  ∀ cell, (f cell).watches = cell.watches ∧ (f cell).nextWatch = cell.nextWatch

/-- The variable's binding stays as it is. -/
def Cell.KeepsBinding (f : Cell κ → Cell κ) : Prop :=
  ∀ cell, (f cell).value = cell.value ∧ (f cell).generation = cell.generation

theorem Cell.keepsWatches_put (v : Value) : KeepsWatches (κ := κ) (·.put v) :=
  fun _ => ⟨rfl, rfl⟩

theorem Cell.keepsWatches_clear : KeepsWatches (Cell.clear : Cell κ → Cell κ) :=
  fun cell => ⟨watches_clear cell, by unfold clear; split <;> rfl⟩

theorem Cell.KeepsWatches.modifyCell {f : Cell κ → Cell κ} (keeps : KeepsWatches f)
    (w : World κ σ) (x y : Var) : ((w.modifyCell x f).cell y).watches = (w.cell y).watches ∧
      ((w.modifyCell x f).cell y).nextWatch = (w.cell y).nextWatch := by
  rw [World.cell_modifyCell]
  split
  · exact keeps _
  · exact ⟨rfl, rfl⟩

theorem restoredBut_modifyCell (w : World κ σ) (x : Var) {f : Cell κ → Cell κ}
    (keeps : Cell.KeepsWatches f) : RestoredBut x w (w.modifyCell x f) where
  other y hy := by rw [World.cell_modifyCell_of_ne w f fun h => hy h.symm]; exact .refl _
  watches := (keeps.modifyCell w x x).1
  nextWatch := Nat.le_of_eq (keeps.modifyCell w x x).2.symm

theorem restoredBut_put (w : World κ σ) (x : Var) (v : Value) :
    RestoredBut x w (w.modifyCell x (·.put v)) :=
  restoredBut_modifyCell w x (Cell.keepsWatches_put v)

theorem restoredBut_clear (w : World κ σ) (x : Var) :
    RestoredBut x w (w.modifyCell x Cell.clear) :=
  restoredBut_modifyCell w x Cell.keepsWatches_clear

@[simp] theorem value_modifyCell_clear (w : World κ σ) (x : Var) :
    (w.modifyCell x Cell.clear).value x = none := by
  simp [World.value]

/-! ## What a world shows -/

/-- The duty of a watch. -/
def Watch.duty (watch : Watch κ) : Duty κ where
  other := watch.other
  comparison := watch.comparison
  onLeft := watch.onLeft

/-- Every watch has a smaller id than the next one on its variable. -/
def World.Numbered (w : World κ σ) : Prop :=
  ∀ x, ∀ watch ∈ (w.cell x).watches, watch.id < (w.cell x).nextWatch

/-- A new watch gets the next id, and the one after it is the next. -/
theorem Cell.numbered_addWatch {cell : Cell κ} (h : ∀ watch ∈ cell.watches, watch.id < cell.nextWatch)
    (other : Var) (c : Comparison κ) (onLeft : Bool) :
    ∀ watch ∈ (cell.addWatch other c onLeft).watches,
      watch.id < (cell.addWatch other c onLeft).nextWatch := by
  intro watch hm
  rcases List.mem_append.mp hm with hm | hm
  · exact Nat.lt_succ_of_lt (h watch hm)
  · obtain rfl := List.mem_singleton.mp hm
    exact Nat.lt_succ_self _

/-- The world shows an environment: the values are those of the environment, and the watches on an
unbound variable have the duties that the pending comparisons give it, oldest first. -/
structure World.Shows (w : World κ σ) (env : Env κ) : Prop where
  value : ∀ x, w.value x = env.value x.id
  watches : ∀ x, w.value x = none → (w.cell x).watches.map Watch.duty = env.duties x
  numbered : w.Numbered

theorem World.Numbered.of_restored {w w' : World κ σ} (h : w.Numbered) (g : Restored w w') :
    w'.Numbered := by
  intro x watch hm
  rw [(g x).watches] at hm
  exact Nat.lt_of_lt_of_le (h x watch hm) (g x).nextWatch

theorem World.Numbered.modifyCell {w : World κ σ} {f : Cell κ → Cell κ} (h : w.Numbered) (x : Var)
    (hx : ∀ watch ∈ (f (w.cell x)).watches, watch.id < (f (w.cell x)).nextWatch) :
    (w.modifyCell x f).Numbered := by
  intro y watch hm
  rw [World.cell_modifyCell] at hm ⊢
  split at hm
  · rename_i hy
    rw [if_pos hy]
    rw [← cell_congr w hy] at hm ⊢
    exact hx watch hm
  · rename_i hy
    rw [if_neg hy]
    exact h y watch hm

theorem World.Shows.of_restored {w w' : World κ σ} {env : Env κ} (h : w.Shows env)
    (g : Restored w w') : w'.Shows env where
  value x := (g.value x).trans (h.value x)
  watches x free := by
    rw [(g x).watches]
    exact h.watches x ((g.value x).symm.trans free)
  numbered := h.numbered.of_restored g

/-- A new world shows that nothing is bound and nothing is pending. -/
theorem World.Shows.blank (client : σ) :
    ({ client } : World κ σ).Shows { value := fun _ => none, pending := [] } := by
  have empty (x : Var) : ({ client } : World κ σ).cell x = default := Table.get_empty _
  refine ⟨fun x => ?_, fun x _ => ?_, fun x watch hm => ?_⟩
  · rw [World.value, empty]; rfl
  · rw [empty]; rfl
  · rw [empty] at hm; cases hm

/-! ## Worlds that look the same -/

/-- To the relation the two worlds look the same. -/
structure Similar (r : Relation κ) (w w' : World κ σ) : Prop where
  restored : Restored w w'
  node : ∀ m ∈ r.ids, w'.node m = w.node m

namespace Similar

variable {r s : Relation κ} {w w' : World κ σ}

theorem refl (r : Relation κ) (w : World κ σ) : Similar r w w :=
  ⟨.refl w, fun _ _ => rfl⟩

theorem trans {u v w : World κ σ} (h : Similar r u v) (g : Similar r v w) : Similar r u w :=
  ⟨h.restored.trans g.restored, fun m hm => (g.node m hm).trans (h.node m hm)⟩

/-- Noting something at a node makes no difference to the relations that do not contain it. -/
theorem of_modifyNode {n : Nat} (hn : n ∉ r.ids) (w : World κ σ) (f : Node → Node) :
    Similar r w (w.modifyNode n f) :=
  ⟨.of_cells fun _ => rfl, fun _ hm => World.node_modifyNode_of_ne w f fun e => hn (e ▸ hm)⟩

end Similar

namespace Relation

/-- The world looks the same to the relation's search, which knows that its own node is busy. -/
structure Resembles (r : Relation κ) (w w' : World κ σ) : Prop where
  restored : Restored w w'
  progress : (w'.node r.node).progress = (w.node r.node).progress
  node : ∀ m ∈ r.ids, m ≠ r.node → w'.node m = w.node m

namespace Resembles

variable {r s : Relation κ} {w w' : World κ σ}

theorem of_similar (h : Similar r w w') : r.Resembles w w' :=
  ⟨h.restored, by rw [h.node _ (node_mem_ids r)], fun m hm _ => h.node m hm⟩

theorem trans {u v w : World κ σ} (h : r.Resembles u v) (g : r.Resembles v w) : r.Resembles u w :=
  ⟨h.restored.trans g.restored, g.progress.trans h.progress,
    fun m hm hne => (g.node m hm hne).trans (h.node m hm hne)⟩

theorem setBusy (r : Relation κ) (w : World κ σ) (busy : Bool) :
    r.Resembles w (w.setBusy r.node busy) :=
  ⟨.of_cells fun _ => rfl, by simp, fun _ _ hne => World.node_setBusy_of_ne _ _ hne.symm⟩

theorem concluded (r : Relation κ) (w : World κ σ) (answer : Bool) :
    r.Resembles w (w.concluded r answer) :=
  ⟨.of_cells fun _ => by simp, by simp, fun _ _ hne => World.node_concluded_of_ne _ _ _ hne.symm⟩

/-- To the parts of a relation, whose node they do not have, the worlds look the same. -/
theorem part (h : r.Resembles w w') (hs : s ∈ r.subs) (hn : r.node ∉ s.ids) : Similar s w w' :=
  ⟨h.restored, fun m hm => h.node m (mem_ids_of_mem_subs hs hm) fun e => hn (e ▸ hm)⟩

end Resembles

end Relation

/-! ## Settled relations -/

namespace Relation

variable {root s t l r : Relation κ} {w w' : World κ σ} {n : Nat}

/-- The leaf holds nothing: undoing its search would change no variable. -/
def AtRest (w : World κ σ) : Relation κ → Prop
  | .domain n x _ => ∀ rest, (w.node n).progress = .binding rest → w.value x = none
  | .convert n _ _ _ => ∀ generation, (w.node n).progress ≠ .applied generation true
  | .compare n _ _ _ => ∀ watches, (w.node n).progress = .fired watches → watches = []
  | .and .. | .or .. | .predicate .. | .always _ | .never _ => True

/-- Every leaf is at rest, and nobody is driving a node. -/
def Settled (r : Relation κ) (w : World κ σ) : Prop :=
  ∀ s ∈ r.subs, s.AtRest w ∧ (w.node s.node).busy = false

theorem AtRest.of_fresh (h : (w.node s.node).progress = .fresh) : s.AtRest w := by
  cases s with
  | domain n x values => intro rest hp; exact nomatch h.symm.trans hp
  | convert n x y f => intro generation hp; exact nomatch h.symm.trans hp
  | compare n x y c => intro watches hp; exact nomatch h.symm.trans hp
  | and | or | predicate | always | never => trivial

theorem AtRest.congr (h : s.AtRest w) (hn : (w'.node s.node).progress = (w.node s.node).progress)
    (hv : ∀ x, w'.value x = w.value x) : s.AtRest w' := by
  cases s with
  | domain n x values => intro rest hp; rw [hv]; exact h rest (hn ▸ hp)
  | convert n x y f => intro generation hp; exact h generation (hn ▸ hp)
  | compare n x y c => intro watches hp; exact h watches (hn ▸ hp)
  | and | or | predicate | always | never => trivial

theorem Ready.settled (h : r.Ready w) : r.Settled w := fun _ hs =>
  ⟨.of_fresh (h _ (List.mem_map_of_mem hs)).1, (h _ (List.mem_map_of_mem hs)).2⟩

theorem Settled.mono (h : root.Settled w) (hs : s ∈ root.subs) : s.Settled w :=
  fun t ht => h t (mem_subs_trans ht hs)

theorem Settled.of_parts (parts : ∀ s ∈ r.parts, s.Settled w) (rest : r.AtRest w)
    (idle : (w.node r.node).busy = false) : r.Settled w := by
  intro s hs
  rcases eq_or_mem_part hs with rfl | ⟨t, ht, hst⟩
  · exact ⟨rest, idle⟩
  · exact parts t ht s hst

theorem Settled.congr (h : r.Settled w) (hn : ∀ m ∈ r.ids, w'.node m = w.node m)
    (hv : ∀ x, w'.value x = w.value x) : r.Settled w' := by
  intro s hs
  have same := hn s.node (List.mem_map_of_mem hs)
  exact ⟨(h s hs).1.congr (by rw [same]) hv, same ▸ (h s hs).2⟩

/-- A side is settled when the part it shares is, and the rest of it is ready. -/
theorem Settled.of_shared (coherent : root.Coherent)
    (hl : l ∈ root.subs) (hr : r ∈ root.subs) (right : r.Settled w)
    (left : ∀ m ∈ l.ids, m ∉ r.ids → (w.node m).progress = .fresh ∧ (w.node m).busy = false) :
    l.Settled w := by
  intro s hs
  by_cases hm : s.node ∈ r.ids
  · obtain ⟨t, ht, hn⟩ := List.mem_map.mp hm
    obtain rfl := coherent t (mem_subs_trans ht hr) s (mem_subs_trans hs hl) hn
    exact right t ht
  · obtain ⟨fresh, idle⟩ := left s.node (List.mem_map_of_mem hs) hm
    exact ⟨.of_fresh fresh, idle⟩

/-- Undoing the search of a leaf at rest changes no variable and no node. -/
theorem AtRest.retract (h : s.AtRest w) : ∃ w', retract s w = .ok ⟨⟩ w' ∧ Restored w w' := by
  cases s with
  | domain n x values =>
    simp only [RelationSearch.retract, bind_apply, progress_apply]
    cases hp : (w.node n).progress with
    | binding rest =>
      have free := h rest hp
      exact ⟨_, rfl, (restoredBut_clear w x).restored free (value_modifyCell_clear w x)⟩
    | _ => exact ⟨w, rfl, .refl w⟩
  | convert n x y f =>
    simp only [RelationSearch.retract, releaseTarget, bind_apply, progress_apply]
    cases hp : (w.node n).progress with
    | applied generation ownsTarget =>
      cases ownsTarget with
      | true => exact absurd hp (h generation)
      | false => exact ⟨w, rfl, .refl w⟩
    | _ => exact ⟨w, rfl, .refl w⟩
  | compare n x y c =>
    simp only [RelationSearch.retract, bind_apply, progress_apply]
    cases hp : (w.node n).progress with
    | fired watches =>
      obtain rfl := h watches hp
      exact ⟨w, rfl, .refl w⟩
    | _ => exact ⟨w, rfl, .refl w⟩
  | and | or | predicate | always | never => exact ⟨w, rfl, .refl w⟩

/-- What was at rest is at rest after some nodes have become fresh. -/
theorem Settled.beside (h : s.Settled w) (ready : t.Ready w')
    (same : ∀ m, m ∉ t.ids → w'.node m = w.node m) (restored : Restored w w') : s.Settled w' := by
  intro a ha
  -- A node that both have is fresh now, and the others are what they were.
  by_cases hm : a.node ∈ t.ids
  · exact ⟨.of_fresh (ready _ hm).1, (ready _ hm).2⟩
  · have hn := same _ hm
    exact ⟨(h a ha).1.congr (by rw [hn]) restored.value, hn ▸ (h a ha).2⟩

/-- Resetting two settled relations, one after the other. -/
theorem Settled.reset_both {s t : Relation κ}
    (hs : s.Settled w) (ht : t.Settled w)
    (first : ∀ {w : World κ σ}, s.Settled w →
      ∃ w', (s.reset : Act κ σ Unit) w = .ok ⟨⟩ w' ∧ s.Ready w' ∧ Restored w w')
    (second : ∀ {w : World κ σ}, t.Settled w →
      ∃ w', (t.reset : Act κ σ Unit) w = .ok ⟨⟩ w' ∧ t.Ready w' ∧ Restored w w') :
    ∃ w', (do s.reset; t.reset : Act κ σ Unit) w = .ok ⟨⟩ w' ∧ s.Ready w' ∧ t.Ready w' ∧
      Restored w w' := by
  obtain ⟨w₁, ran₁, ready₁, restored₁⟩ := first hs
  have frame₁ := (reset_frame s).of_ok ran₁
  obtain ⟨w₂, ran₂, ready₂, restored₂⟩ := second (ht.beside ready₁ frame₁.node restored₁)
  have frame₂ := (reset_frame t).of_ok ran₂
  refine ⟨w₂, ?_, ready₁.beside ready₂ frame₂.node, ready₂, restored₁.trans restored₂⟩
  rw [bind_apply, ran₁]
  exact ran₂

theorem restored_rewound {w₁ : World κ σ} (h : Restored (w.setBusy n true) w₁) :
    Restored w (w₁.rewound r) := by
  intro x
  rw [World.cell_rewound]
  exact h x

theorem AtRest.setBusy (h : s.AtRest w) (n : Nat) (busy : Bool) : s.AtRest (w.setBusy n busy) :=
  h.congr (World.progress_setBusy ..) fun _ => rfl

theorem Settled.setBusy (h : s.Settled w) (hn : n ∉ s.ids) (busy : Bool) :
    s.Settled (w.setBusy n busy) :=
  h.congr (fun _ hm => World.node_setBusy_of_ne _ _ fun e => hn (e ▸ hm)) fun _ => rfl

/-- **Resetting a settled relation** makes it ready and changes nothing that a variable shows. -/
theorem Settled.reset (coherent : r.Coherent) (h : r.Settled w) :
    ∃ w', (r.reset : Act κ σ Unit) w = .ok ⟨⟩ w' ∧ r.Ready w' ∧ Restored w w' := by
  have idle := (h r (mem_subs_self r)).2
  induction r generalizing w with
  | and n a b iha ihb =>
    have ha : a ∈ (Relation.and n a b).subs := left_sub_and
    have hb : b ∈ (Relation.and n a b).subs := right_sub_and
    obtain ⟨w₁, ran, readyB, readyA, restored⟩ := Settled.reset_both
      ((h.mono hb).setBusy (coherent.node_not_mem right_part_and) true)
      ((h.mono ha).setBusy (coherent.node_not_mem left_part_and) true)
      (fun h => ihb (coherent.mono hb) h (h b (mem_subs_self b)).2)
      (fun h => iha (coherent.mono ha) h (h a (mem_subs_self a)).2)
    obtain ⟨back, ready⟩ := rewinding_ready idle ran (forall_parts_and readyA readyB)
    exact ⟨_, back, ready, restored_rewound restored⟩
  | or n a b iha ihb =>
    have ha : a ∈ (Relation.or n a b).subs := left_sub_or
    have hb : b ∈ (Relation.or n a b).subs := right_sub_or
    obtain ⟨w₁, ran, readyA, readyB, restored⟩ := Settled.reset_both
      ((h.mono ha).setBusy (coherent.node_not_mem left_part_or) true)
      ((h.mono hb).setBusy (coherent.node_not_mem right_part_or) true)
      (fun h => iha (coherent.mono ha) h (h a (mem_subs_self a)).2)
      (fun h => ihb (coherent.mono hb) h (h b (mem_subs_self b)).2)
    obtain ⟨back, ready⟩ := rewinding_ready idle ran (forall_parts_or readyA readyB)
    exact ⟨_, back, ready, restored_rewound restored⟩
  | domain | convert | compare | predicate | always | never =>
    obtain ⟨rest, -⟩ := h _ (mem_subs_self _)
    obtain ⟨w₁, ran, restored⟩ := (rest.setBusy _ true).retract
    obtain ⟨back, ready⟩ := rewinding_ready idle ran nofun
    exact ⟨_, back, ready, restored_rewound restored⟩

end Relation
end RelationSearch
