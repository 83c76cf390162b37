import RelationSearch.Proofs.Endings

/-! # What a retrying conjunction knows

A conjunction is *retrying* when its left side has held a solution and the right side is searched under
it.  After every call of `solve` on the root, whatever its outcome, the latest call on the left side of
a retrying conjunction has answered `true`, or it was interrupted (`Relation.Tidy`).  The second can
only be if some call on the root was interrupted before, and then the conjunction goes on searching its
right side under a left side that holds nothing.

The invariant follows the graph from its root.  Below a disjunction, only the side that is being
searched is in use, and the nodes that the other side has for itself are as after a reset
(`Unsolved`).
-/
namespace RelationSearch

open Act

variable {κ σ : Type} {call : Caller κ σ} {fuel n m : Nat} {root r s t l : Relation κ}
variable {w w' : World κ (σ × Log)}

/-! ## Frames -/

/-- The log differs only for nodes of the relation. -/
def LogWithin (r : Relation κ) (w w' : World κ (σ × Log)) : Prop :=
  ∀ m, m ∉ r.ids → w'.latest m = w.latest m

theorem LogWithin.steady (r : Relation κ) :
    Steady (LogWithin r : World κ (σ × Log) → World κ (σ × Log) → Prop) where
  refl _ _ _ := rfl
  trans h g m hm := (g m hm).trans (h m hm)

theorem Act.final_logged {α : Type} (act : Act κ σ α) (w : World κ (σ × Log)) :
    (Act.logged act).final w = (act.final w.plain).logged w.client.2 := by
  unfold Act.final Act.logged
  cases act w.plain <;> rfl

namespace LogWithin

theorem logged {α : Type} (act : Act κ σ α) : Keeps (LogWithin r) (Act.logged act) := by
  intro w m _
  rw [Act.final_logged]
  rfl

theorem noting {α : Type} (hn : n ∈ r.ids) {act : Act κ (σ × Log) α} (h : Keeps (LogWithin r) act)
    (ending : α → Ending) : Keeps (LogWithin r) (noting n ending act) := by
  intro w m hm
  have ne : m ≠ n := fun e => hm (e ▸ hn)
  have inner := h w m hm
  unfold final RelationSearch.noting at *
  cases ran : act w with
  | ok a w' =>
    rw [ran] at inner
    exact (World.latest_note_of_ne _ _ _ _ ne).trans inner
  | error why w' =>
    rw [ran] at inner
    exact (World.latest_note_of_ne _ _ _ _ ne).trans inner

theorem answering {search : Act κ (σ × Log) Bool} (h : Keeps (LogWithin r) search) :
    Keeps (LogWithin r) (answering s search) := by
  intro w m hm
  have inner := h (w.setBusy s.node true) m hm
  unfold final at *
  cases idle : (w.node s.node).busy with
  | true => rw [answering_of_busy idle]
  | false =>
    rw [answering_of_idle idle]
    cases ran : search (w.setBusy s.node true) with
    | ok answer w' =>
      rw [ran] at inner
      exact (by simp [World.concluded, World.setBusy] :
        (w'.concluded s answer).latest m = w'.latest m).trans inner
    | error why w' =>
      rw [ran] at inner
      exact inner

theorem rewinding {undo : Act κ (σ × Log) Unit} (h : Keeps (LogWithin r) undo) :
    Keeps (LogWithin r) (rewinding s undo) := by
  intro w m hm
  have inner := h (w.setBusy s.node true) m hm
  unfold final at *
  cases idle : (w.node s.node).busy with
  | true => rw [rewinding_of_busy idle]
  | false =>
    rw [rewinding_of_idle idle]
    cases ran : undo (w.setBusy s.node true) with
    | ok answer w' =>
      rw [ran] at inner
      exact (by simp [World.rewound, World.noted, World.setBusy] :
        (w'.rewound s).latest m = w'.latest m).trans inner
    | error why w' =>
      rw [ran] at inner
      exact inner

theorem resetNoting (hs : s ∈ r.subs) :
    Keeps (LogWithin r) (s.resetNoting : Act κ (σ × Log) Unit) := by
  have steady := LogWithin.steady (σ := σ) r
  induction s with
  | and n a b iha ihb =>
    exact noting (List.mem_map_of_mem hs) (rewinding (.bind steady
      (ihb (Relation.mem_subs_of_part Relation.right_part_and hs))
      fun _ => iha (Relation.mem_subs_of_part Relation.left_part_and hs))) _
  | or n a b iha ihb =>
    exact noting (List.mem_map_of_mem hs) (rewinding (.bind steady
      (iha (Relation.mem_subs_of_part Relation.left_part_or hs))
      fun _ => ihb (Relation.mem_subs_of_part Relation.right_part_or hs))) _
  | domain | convert | compare | predicate | always | never =>
    exact noting (List.mem_map_of_mem hs) (logged _) _

theorem solveNoting (hs : s ∈ r.subs) : Keeps (LogWithin r) (s.solveNoting call fuel) := by
  have steady := LogWithin.steady (σ := σ) r
  have setProgress (n : Nat) (p : Progress) :
    Keeps (LogWithin r) (Act.setProgress n p : Act κ (σ × Log) Unit) := fun _ _ _ => rfl
  induction s with
  | and n a b iha ihb =>
    have ha := Relation.mem_subs_of_part Relation.left_part_and hs
    have hb := Relation.mem_subs_of_part Relation.right_part_and hs
    exact noting (List.mem_map_of_mem hs) (answering (Conducts.advanceAnd steady (setProgress n)
      (iha ha) (ihb hb) (resetNoting hb) fuel)) _
  | or n a b iha ihb =>
    have ha := Relation.mem_subs_of_part Relation.left_part_or hs
    have hb := Relation.mem_subs_of_part Relation.right_part_or hs
    exact noting (List.mem_map_of_mem hs) (answering (Conducts.advanceOr steady (setProgress n)
      (iha ha) (ihb hb) (resetNoting ha))) _
  | domain | convert | compare | predicate | always | never =>
    exact noting (List.mem_map_of_mem hs) (logged _) _

end LogWithin

/-- The nodes and the log differ only for nodes of the relation, and no node is more or less busy. -/
structure Aside (r : Relation κ) (w w' : World κ (σ × Log)) : Prop where
  within : Within r w.plain w'.plain
  log : LogWithin r w w'

theorem Erases.final {α : Type} {act : Act κ (σ × Log) α} {act' : Act κ σ α} (h : Erases act act')
    (w : World κ (σ × Log)) : (act.final w).plain = act'.final w.plain := by
  unfold Act.final
  rw [← h w]
  cases act w <;> rfl

theorem Relation.solveNoting_frame (spares : call.SparesNodes) (r : Relation κ) :
    Keeps (Aside r) (r.solveNoting call fuel) := by
  intro w
  refine ⟨?_, LogWithin.solveNoting (Relation.mem_subs_self r) w⟩
  rw [(r.solveNoting_erases call fuel).final]
  exact Relation.solve_frame spares r w.plain

theorem Relation.resetNoting_frame (r : Relation κ) :
    Keeps (Aside r) (r.resetNoting : Act κ (σ × Log) Unit) := by
  intro w
  refine ⟨?_, LogWithin.resetNoting (Relation.mem_subs_self r) w⟩
  rw [r.resetNoting_erases.final]
  exact Relation.reset_frame r w.plain

/-! ## The invariant -/

/-- Nothing has happened at the node since it was made, or reset. -/
structure Unsolved (w : World κ (σ × Log)) (m : Nat) : Prop where
  fresh : (w.node m).progress = .fresh
  idle : (w.node m).busy = false
  silent : w.latest m ≠ some (.answered true)

/-- The worlds and their logs agree at some nodes. -/
def SameAt (ids : List Nat) (w w' : World κ (σ × Log)) : Prop :=
  ∀ m ∈ ids, w'.node m = w.node m ∧ w'.latest m = w.latest m

theorem Aside.sameAt {ids : List Nat} (h : Aside r w w') (apart : ∀ m ∈ ids, m ∉ r.ids) :
    SameAt ids w w' := fun m hm => ⟨h.within.node m (apart m hm), h.log m (apart m hm)⟩

theorem SameAt.trans {ids : List Nat} {w'' : World κ (σ × Log)} (h : SameAt ids w w')
    (g : SameAt ids w' w'') : SameAt ids w w'' := fun m hm =>
  ⟨(g m hm).1.trans (h m hm).1, (g m hm).2.trans (h m hm).2⟩

theorem SameAt.mono {ids ids' : List Nat} (h : SameAt ids w w') (le : ∀ m ∈ ids', m ∈ ids) :
    SameAt ids' w w' := fun m hm => h m (le m hm)

theorem SameAt.noted {ids : List Nat} (hn : n ∉ ids) (p : Progress) :
    SameAt ids w (w.noted n p) :=
  fun _ hm => ⟨World.node_noted_of_mem _ _ _ hn hm, rfl⟩

theorem SameAt.setBusy {ids : List Nat} (hn : n ∉ ids) (w : World κ (σ × Log)) (busy : Bool) :
    SameAt ids w (w.setBusy n busy) :=
  fun _ hm => ⟨World.node_setBusy_of_ne _ _ fun e : n = _ => hn (e ▸ hm), rfl⟩

theorem SameAt.note {ids : List Nat} (hn : n ∉ ids) (w : World κ (σ × Log)) (ending : Ending) :
    SameAt ids w (w.note n ending) :=
  fun _ hm => ⟨rfl, World.latest_note_of_ne _ _ _ _ fun e : _ = n => hn (e ▸ hm)⟩

theorem SameAt.concluded {ids : List Nat} (hn : r.node ∉ ids) (w : World κ (σ × Log))
    (answer : Bool) : SameAt ids w (w.concluded r answer) :=
  fun _ hm => ⟨World.node_concluded_of_ne _ _ _ fun e : r.node = _ => hn (e ▸ hm),
    by simp [World.concluded, World.setBusy]⟩

theorem Unsolved.congr (h : Unsolved w m)
    (same : w'.node m = w.node m ∧ w'.latest m = w.latest m) : Unsolved w' m :=
  ⟨same.1 ▸ h.fresh, same.1 ▸ h.idle, same.2 ▸ h.silent⟩

namespace Relation

/-- The latest call on the relation answered `true`. -/
def Holds (r : Relation κ) (w : World κ (σ × Log)) : Prop :=
  w.latest r.node = some (.answered true)

/-- The latest call on the relation was interrupted. -/
def Cut (r : Relation κ) (w : World κ (σ × Log)) : Prop :=
  w.latest r.node = some .interrupted

/-- Where a conjunction is, and what its sides have done so far. -/
inductive Joined (unbroken : Bool) (n : Nat) (l r : Relation κ) (w : World κ (σ × Log)) : Prop
  | fresh (progress : (w.node n).progress = .fresh) (right : ∀ m ∈ r.ids, Unsolved w m)
  | retrying (progress : (w.node n).progress = .retrying)
      (left : l.Holds w ∨ unbroken = false ∧ l.Cut w)
  | exhausted (progress : (w.node n).progress = .exhausted)

/-- Where a disjunction is: one side is in use, and what the other has for itself is unsolved. -/
inductive Parted (n : Nat) (l r : Relation κ) (L R : Prop) (w : World κ (σ × Log)) : Prop
  | left (progress : (w.node n).progress = .fresh ∨ (w.node n).progress = .inLeft) (left : L)
      (right : ∀ m ∈ r.ids, m ∉ l.ids → Unsolved w m)
  | right (progress : (w.node n).progress = .inRight ∨ (w.node n).progress = .exhausted) (right : R)
      (left : ∀ m ∈ l.ids, m ∉ r.ids → Unsolved w m)

/-- Every conjunction in use is where its sides have brought it.  Only after an interrupted call
(`unbroken = false`) can the left side of a retrying conjunction be cut. -/
def Tidy (unbroken : Bool) (w : World κ (σ × Log)) : Relation κ → Prop
  | .and n l r => l.Tidy unbroken w ∧ r.Tidy unbroken w ∧ Joined unbroken n l r w ∧
      (w.latest n = some (.answered true) → (w.node n).progress = .retrying ∧ r.Holds w)
  | .or n l r => Parted n l r (l.Tidy unbroken w) (r.Tidy unbroken w) w
  | .domain .. | .convert .. | .compare .. | .predicate .. | .always _ | .never _ => True

variable {unbroken : Bool}

theorem Joined.congr (h : Joined unbroken n l r w) (left : SameAt l.ids w w')
    (right : SameAt r.ids w w') (progress : (w'.node n).progress = (w.node n).progress) :
    Joined unbroken n l r w' := by
  have same := (left _ (node_mem_ids l)).2
  cases h with
  | fresh p unsolved =>
    exact .fresh (progress.trans p) fun m hm => (unsolved m hm).congr (right m hm)
  | retrying p holds =>
    refine .retrying (progress.trans p) ?_
    unfold Holds Cut at *
    rw [same]
    exact holds
  | exhausted p => exact .exhausted (progress.trans p)

theorem Parted.congr {L R L' R' : Prop} (h : Parted n l r L R w) (hl : L → L') (hr : R → R')
    (left : SameAt l.ids w w') (right : SameAt r.ids w w')
    (progress : (w'.node n).progress = (w.node n).progress) : Parted n l r L' R' w' := by
  cases h with
  | left p inUse unused =>
    exact .left (progress ▸ p) (hl inUse) fun m hm hne => (unused m hm hne).congr (right m hm)
  | right p inUse unused =>
    exact .right (progress ▸ p) (hr inUse) fun m hm hne => (unused m hm hne).congr (left m hm)

theorem Tidy.congr (h : r.Tidy unbroken w) (same : SameAt r.ids w w') : r.Tidy unbroken w' := by
  induction r with
  | and n a b iha ihb =>
    obtain ⟨left, right, joined, answer⟩ := h
    have sameA : SameAt a.ids w w' := same.mono fun m => mem_ids_of_mem_subs left_sub_and
    have sameB : SameAt b.ids w w' := same.mono fun m => mem_ids_of_mem_subs right_sub_and
    obtain ⟨node, latest⟩ := same n (node_mem_ids (.and n a b))
    refine ⟨iha left sameA, ihb right sameB, joined.congr sameA sameB (by rw [node]), ?_⟩
    unfold Holds at *
    rw [latest, node, (sameB _ (node_mem_ids b)).2]
    exact answer
  | or n a b iha ihb =>
    have sameA : SameAt a.ids w w' := same.mono fun m => mem_ids_of_mem_subs left_sub_or
    have sameB : SameAt b.ids w w' := same.mono fun m => mem_ids_of_mem_subs right_sub_or
    have node := (same n (node_mem_ids (.or n a b))).1
    exact Parted.congr h (fun h => iha h sameA) (fun h => ihb h sameB) sameA sameB (by rw [node])
  | domain | convert | compare | predicate | always | never => trivial

theorem Tidy.of_unsolved (h : ∀ m ∈ r.ids, Unsolved w m) : r.Tidy unbroken w := by
  induction r with
  | and n a b iha ihb =>
    have own := h n (node_mem_ids (.and n a b))
    have left : ∀ m ∈ a.ids, Unsolved w m := by
      intro m hm
      exact h m (mem_ids_of_mem_subs left_sub_and hm)
    have right : ∀ m ∈ b.ids, Unsolved w m := by
      intro m hm
      exact h m (mem_ids_of_mem_subs right_sub_and hm)
    refine ⟨iha left, ihb right, .fresh own.fresh right, ?_⟩
    intro answer
    exact absurd answer own.silent
  | or n a b iha ihb =>
    have own := h n (node_mem_ids (.or n a b))
    have left : ∀ m ∈ a.ids, Unsolved w m := by
      intro m hm
      exact h m (mem_ids_of_mem_subs left_sub_or hm)
    refine .left (.inl own.fresh) (iha left) ?_
    intro m hm _
    exact h m (mem_ids_of_mem_subs right_sub_or hm)
  | domain | convert | compare | predicate | always | never => trivial

theorem Joined.broken (h : Joined unbroken n l r w) : Joined false n l r w := by
  cases h with
  | fresh progress right => exact .fresh progress right
  | retrying progress left => exact .retrying progress (left.imp_right fun h => ⟨rfl, h.2⟩)
  | exhausted progress => exact .exhausted progress

theorem Tidy.broken (h : r.Tidy unbroken w) : r.Tidy false w := by
  induction r with
  | and n a b iha ihb =>
    obtain ⟨left, right, joined, answer⟩ := h
    exact ⟨iha left, ihb right, joined.broken, answer⟩
  | or n a b iha ihb =>
    exact Parted.congr h iha ihb (fun _ _ => ⟨rfl, rfl⟩) (fun _ _ => ⟨rfl, rfl⟩) rfl
  | domain | convert | compare | predicate | always | never => trivial

/-- What the invariant says of one conjunction. -/
def Knows (unbroken : Bool) (w : World κ (σ × Log)) (n : Nat) (l r : Relation κ) : Prop :=
  ((w.node n).progress = .retrying → l.Holds w ∨ unbroken = false ∧ l.Cut w) ∧
    (w.latest n = some (.answered true) → (w.node n).progress = .retrying ∧ r.Holds w)

theorem Knows.of_unsolved (h : Unsolved w n) : Knows unbroken w n l r := by
  constructor
  · intro retrying
    injection h.fresh.symm.trans retrying
  · intro answer
    exact absurd answer h.silent

theorem Knows.of_joined (h : Joined unbroken n l r w)
    (answer : w.latest n = some (.answered true) → (w.node n).progress = .retrying ∧ r.Holds w) :
    Knows unbroken w n l r := by
  refine ⟨fun retrying => ?_, answer⟩
  cases h with
  | fresh progress right => injection progress.symm.trans retrying
  | retrying progress left => exact left
  | exhausted progress => injection progress.symm.trans retrying

/-- The invariant says it of every conjunction of the graph, in use or not. -/
theorem Tidy.knows (coherent : root.Coherent) (h : root.Tidy unbroken w)
    (hs : Relation.and n l r ∈ root.subs) : Knows unbroken w n l r := by
  induction root with
  | and k a b iha ihb =>
    have ha : a ∈ (Relation.and k a b).subs := left_sub_and
    have hb : b ∈ (Relation.and k a b).subs := right_sub_and
    obtain ⟨left, right, joined, answer⟩ := h
    simp only [subs, List.mem_cons, List.mem_append] at hs
    rcases hs with own | hs | hs
    · cases own
      exact .of_joined joined answer
    · exact iha (coherent.mono ha) left hs
    · exact ihb (coherent.mono hb) right hs
  | or k a b iha ihb =>
    have ha : a ∈ (Relation.or k a b).subs := left_sub_or
    have hb : b ∈ (Relation.or k a b).subs := right_sub_or
    simp only [subs, List.mem_cons, List.mem_append, reduceCtorEq, false_or] at hs
    -- A node outside the side in use is unsolved; inside, it is that side's own conjunction.
    have within {c d : Relation κ} (hc : c ∈ (Relation.or k a b).subs)
        (hd : d ∈ (Relation.or k a b).subs)
        (ih : Relation.and n l r ∈ c.subs → Knows unbroken w n l r)
        (hs : Relation.and n l r ∈ d.subs)
        (unused : ∀ m ∈ d.ids, m ∉ c.ids → Unsolved w m) : Knows unbroken w n l r := by
      by_cases shared : n ∈ c.ids
      · obtain ⟨t, ht, hn⟩ := List.mem_map.mp shared
        obtain rfl := coherent t (mem_subs_trans ht hc) _ (mem_subs_trans hs hd) hn
        exact ih ht
      · exact .of_unsolved (unused n (List.mem_map_of_mem hs) shared)
    cases h with
    | left _ inUse unused =>
      have ih := iha (coherent.mono ha) inUse
      exact hs.elim ih fun hs => within ha hb ih hs unused
    | right _ inUse unused =>
      have ih := ihb (coherent.mono hb) inUse
      exact hs.elim (fun hs => within hb ha ih hs unused) ih
  | domain | convert | compare | predicate | always | never =>
    injection List.mem_singleton.mp hs

/-! ## Resetting -/

theorem latest_note_rewound {w₁ : World κ (σ × Log)} (h : m ≠ n → w₁.latest m = some .rewound) :
    ((w₁.rewound r).note n .rewound).latest m = some .rewound := by
  by_cases hm : m = n
  · subst hm
    exact World.latest_note ..
  · rw [World.latest_note_of_ne _ _ _ _ hm, ← h hm]
    simp [World.rewound, World.noted, World.setBusy]

theorem latest_of_reset_both
    (first : ∀ {w w' : World κ (σ × Log)}, s.resetNoting w = .ok ⟨⟩ w' →
      ∀ m ∈ s.ids, w'.latest m = some .rewound)
    (second : ∀ {w w' : World κ (σ × Log)}, t.resetNoting w = .ok ⟨⟩ w' →
      ∀ m ∈ t.ids, w'.latest m = some .rewound)
    (ran : (do s.resetNoting; t.resetNoting : Act κ (σ × Log) Unit) w = .ok ⟨⟩ w') :
    ∀ m, m ∈ s.ids ∨ m ∈ t.ids → w'.latest m = some .rewound := by
  obtain ⟨_, w₁, ran₁, ran₂⟩ := bind_ok ran
  intro m hm
  by_cases ht : m ∈ t.ids
  · exact second ran₂ m ht
  · rw [(t.resetNoting_frame.of_ok ran₂).log m ht]
    exact first ran₁ m (hm.resolve_right ht)

theorem latest_of_resetNoting (ran : (r.resetNoting : Act κ (σ × Log) Unit) w = .ok ⟨⟩ w') :
    ∀ m ∈ r.ids, w'.latest m = some .rewound := by
  intro m hm
  induction r generalizing w w' m with
  | and n a b iha ihb =>
    obtain ⟨_, called, rfl⟩ := noting_ok ran
    obtain ⟨w₁, undone, rfl⟩ := rewinding_ok called
    refine latest_note_rewound fun hne => ?_
    exact latest_of_reset_both ihb iha undone m ((mem_ids_and.mp hm).resolve_left hne).symm
  | or n a b iha ihb =>
    obtain ⟨_, called, rfl⟩ := noting_ok ran
    obtain ⟨w₁, undone, rfl⟩ := rewinding_ok called
    refine latest_note_rewound fun hne => ?_
    exact latest_of_reset_both iha ihb undone m ((mem_ids_or.mp hm).resolve_left hne)
  | domain | convert | compare | predicate | always | never =>
    obtain ⟨_, called, rfl⟩ := noting_ok ran
    obtain rfl := List.mem_singleton.mp hm
    exact World.latest_note ..

/-- A reset with its ending noted always comes back on an idle relation. -/
theorem resetNoting_unsolved (coherent : r.Coherent) (idle : r.Idle w.plain) :
    ∃ w', (r.resetNoting : Act κ (σ × Log) Unit) w = .ok ⟨⟩ w' ∧ ∀ m ∈ r.ids, Unsolved w' m := by
  obtain ⟨v, ran, ready⟩ := reset_ready coherent idle
  have erased := r.resetNoting_erases w
  rw [ran] at erased
  cases noted : (r.resetNoting : Act κ (σ × Log) Unit) w with
  | error why w' => rw [noted] at erased; cases erased
  | ok _ w' =>
    rw [noted] at erased
    have plain : w'.plain = v := (EStateM.Result.ok.inj erased).2
    refine ⟨w', rfl, fun m hm => ?_⟩
    obtain ⟨fresh, idle⟩ := ready m hm
    rw [← plain] at fresh idle
    refine ⟨fresh, idle, ?_⟩
    rw [latest_of_resetNoting noted m hm]
    exact nofun

/-! ## Solving -/

/-- A call keeps the invariant; if it is interrupted, the broken one. -/
def KeepsTidy (unbroken : Bool) (r : Relation κ) :
    EStateM.Result Interrupt (World κ (σ × Log)) Bool → Prop
  | .ok _ w => r.Tidy unbroken w
  | .error _ w => r.Tidy false w

/-- The search of a conjunction keeps the invariant, but for what it says of the conjunction's own latest
call, which is still under way. -/
def JoinsTidy (unbroken : Bool) (n : Nat) (l r : Relation κ) :
    EStateM.Result Interrupt (World κ (σ × Log)) Bool → Prop
  | .ok answer w => l.Tidy unbroken w ∧ r.Tidy unbroken w ∧ Joined unbroken n l r w ∧
      (answer = true → (w.node n).progress = .retrying ∧ r.Holds w)
  | .error _ w => l.Tidy false w ∧ r.Tidy false w ∧ Joined false n l r w

theorem Held.congr (h : l.Holds w ∨ unbroken = false ∧ l.Cut w) (same : SameAt l.ids w w') :
    l.Holds w' ∨ unbroken = false ∧ l.Cut w' := by
  unfold Holds Cut at *
  rw [(same _ (node_mem_ids l)).2]
  exact h

section Conjunction

variable (spares : call.SparesNodes) (apart : Apart n l r)
include spares apart

theorem JoinsTidy.retry {k : Nat}
    (callRight : ∀ {w : World κ (σ × Log)}, r.Tidy unbroken w → r.Idle w.plain →
      KeepsTidy unbroken r (r.solveNoting call fuel w))
    (progress : (w.node n).progress = .retrying) (held : l.Holds w ∨ unbroken = false ∧ l.Cut w)
    (left : l.Tidy unbroken w) (right : r.Tidy unbroken w)
    (idleL : l.Idle w.plain) (idleR : r.Idle w.plain)
    (loop : ∀ w : World κ (σ × Log), (w.node n).progress = .retrying →
      l.Holds w ∨ unbroken = false ∧ l.Cut w → l.Tidy unbroken w →
      (∀ m ∈ r.ids, Unsolved w m) → l.Idle w.plain →
      JoinsTidy unbroken n l r (conjoin n (l.solveNoting call fuel) (r.solveNoting call fuel)
        r.resetNoting k w)) :
    JoinsTidy unbroken n l r (conjoinRight n (l.solveNoting call fuel) (r.solveNoting call fuel)
      r.resetNoting k w) := by
  have called := callRight right idleR
  rw [conjoinRight, bind_apply]
  cases ran : r.solveNoting call fuel w with
  | error why w₁ =>
    rw [ran] at called
    have aside := (solveNoting_frame spares r).of_error ran
    have same := aside.sameAt apart.sides
    have here := (congrArg Node.progress (aside.within.node n apart.right)).trans progress
    -- The left side was not called, and still holds what it held.
    exact ⟨left.broken.congr same, called,
      .retrying here ((Held.congr held same).imp_right fun h => ⟨rfl, h.2⟩)⟩
  | ok answer w₁ =>
    rw [ran] at called
    have aside := (solveNoting_frame spares r).of_ok ran
    have same := aside.sameAt apart.sides
    have here := (congrArg Node.progress (aside.within.node n apart.right)).trans progress
    cases answer with
    | true =>
      exact ⟨left.congr same, called, .retrying here (Held.congr held same),
        fun _ => ⟨here, solveNoting_ok ran⟩⟩
    | false =>
      obtain ⟨w₂, rewound, unsolved⟩ :=
        resetNoting_unsolved apart.coherent (idleR.within aside.within)
      have aside₂ := (resetNoting_frame r).of_ok rewound
      have same₂ := same.trans (aside₂.sameAt apart.sides)
      simp only [Bool.false_eq_true, if_false, bind_apply, rewound]
      exact loop w₂ ((congrArg Node.progress (aside₂.within.node n apart.right)).trans here)
        (Held.congr held same₂) (left.congr same₂) unsolved
        ((idleL.within aside.within).within aside₂.within)

theorem JoinsTidy.loop {k : Nat}
    (callLeft : ∀ {w : World κ (σ × Log)}, l.Tidy unbroken w → l.Idle w.plain →
      KeepsTidy unbroken l (l.solveNoting call fuel w))
    (callRight : ∀ {w : World κ (σ × Log)}, r.Tidy unbroken w → r.Idle w.plain →
      KeepsTidy unbroken r (r.solveNoting call fuel w))
    (progress : (w.node n).progress = .fresh ∨
      (w.node n).progress = .retrying ∧ (l.Holds w ∨ unbroken = false ∧ l.Cut w))
    (left : l.Tidy unbroken w) (right : ∀ m ∈ r.ids, Unsolved w m) (idle : l.Idle w.plain) :
    JoinsTidy unbroken n l r (conjoin n (l.solveNoting call fuel) (r.solveNoting call fuel)
      r.resetNoting k w) := by
  induction k generalizing w with
  | zero =>
    refine ⟨left.broken, .of_unsolved right, ?_⟩
    rcases progress with progress | ⟨progress, held⟩
    · exact .fresh progress right
    · exact .retrying progress (held.imp_right fun h => ⟨rfl, h.2⟩)
  | succ k ih =>
    have called := callLeft left idle
    rw [conjoin_succ, bind_apply]
    cases ran : l.solveNoting call fuel w with
    | error why w₁ =>
      rw [ran] at called
      have aside := (solveNoting_frame spares l).of_error ran
      have node := congrArg Node.progress (aside.within.node n apart.left)
      have unsolved : ∀ m ∈ r.ids, Unsolved w₁ m := fun m hm =>
        (right m hm).congr (aside.sameAt (fun m hm h => apart.sides m h hm) m hm)
      refine ⟨called, .of_unsolved unsolved, ?_⟩
      -- Here a left side that was cut is left behind a conjunction that may be retrying.
      rcases progress with progress | ⟨progress, -⟩
      · exact .fresh (node.trans progress) unsolved
      · exact .retrying (node.trans progress) (.inr ⟨rfl, solveNoting_error ran⟩)
    | ok answer w₁ =>
      rw [ran] at called
      have aside := (solveNoting_frame spares l).of_ok ran
      have unsolved : ∀ m ∈ r.ids, Unsolved w₁ m := fun m hm =>
        (right m hm).congr (aside.sameAt (fun m hm h => apart.sides m h hm) m hm)
      cases answer with
      | true =>
        have sameL : SameAt l.ids w₁ (w₁.noted n .retrying) := .noted apart.left _
        have sameR : SameAt r.ids w₁ (w₁.noted n .retrying) := .noted apart.right _
        have holds : l.Holds w₁ := solveNoting_ok ran
        have idle₁ := idle.within aside.within
        simp only [if_true, bind_apply, setProgress_apply]
        exact JoinsTidy.retry spares apart callRight
          (World.progress_noted ..) (.inl holds) (called.congr sameL)
          ((Tidy.of_unsolved unsolved).congr sameR)
          (fun m hm => by rw [World.node_plain, (sameL m hm).1]; exact idle₁ m hm)
          (fun m hm => by rw [World.node_plain, (sameR m hm).1]; exact (unsolved m hm).idle)
          fun w progress held => ih (.inr ⟨progress, held⟩)
      | false =>
        exact ⟨called.congr (.noted apart.left _), (Tidy.of_unsolved unsolved).congr
          (.noted apart.right _), .exhausted (World.progress_noted ..), nofun⟩

theorem JoinsTidy.step
    (callLeft : ∀ {w : World κ (σ × Log)}, l.Tidy unbroken w → l.Idle w.plain →
      KeepsTidy unbroken l (l.solveNoting call fuel w))
    (callRight : ∀ {w : World κ (σ × Log)}, r.Tidy unbroken w → r.Idle w.plain →
      KeepsTidy unbroken r (r.solveNoting call fuel w))
    (left : l.Tidy unbroken w) (right : r.Tidy unbroken w) (joined : Joined unbroken n l r w)
    (idleL : l.Idle w.plain) (idleR : r.Idle w.plain) :
    JoinsTidy unbroken n l r (advanceAnd fuel n (l.solveNoting call fuel)
      (r.solveNoting call fuel) r.resetNoting w) := by
  cases joined with
  | fresh progress unsolved =>
    rw [advanceAnd_of_fresh progress]
    exact loop spares apart callLeft callRight (.inl progress) left unsolved idleL
  | retrying progress held =>
    rw [advanceAnd_of_retrying progress]
    exact retry spares apart callRight progress held left right idleL idleR
      fun w progress held left unsolved idle =>
        loop spares apart callLeft callRight (.inr ⟨progress, held⟩) left unsolved idle
  | exhausted progress =>
    rw [advanceAnd_of_exhausted progress]
    exact ⟨left, right, .exhausted progress, nofun⟩

end Conjunction

section Disjunction

variable (spares : call.SparesNodes) (coherent : (Relation.or n l r).Coherent)
include spares coherent

theorem Tidy.searchRight
    (callRight : ∀ {w : World κ (σ × Log)}, r.Tidy unbroken w → r.Idle w.plain →
      KeepsTidy unbroken r (r.solveNoting call fuel w))
    (progress : (w.node n).progress = .inRight) (right : r.Tidy unbroken w)
    (idle : r.Idle w.plain) (unused : ∀ m ∈ l.ids, m ∉ r.ids → Unsolved w m) :
    KeepsTidy unbroken (.or n l r) (disjoinRight n (r.solveNoting call fuel) w) := by
  have outL : n ∉ l.ids := coherent.node_not_mem left_part_or
  have outR : n ∉ r.ids := coherent.node_not_mem right_part_or
  have called := callRight right idle
  rw [disjoinRight, bind_apply]
  cases ran : r.solveNoting call fuel w with
  | error why w₁ =>
    rw [ran] at called
    have aside := (solveNoting_frame spares r).of_error ran
    have node := congrArg Node.progress (aside.within.node n outR)
    exact .right (.inl (node.trans progress)) called fun m hm hne =>
      (unused m hm hne).congr ⟨aside.within.node m hne, aside.log m hne⟩
  | ok answer w₁ =>
    rw [ran] at called
    have aside := (solveNoting_frame spares r).of_ok ran
    have node := congrArg Node.progress (aside.within.node n outR)
    have unused₁ : ∀ m ∈ l.ids, m ∉ r.ids → Unsolved w₁ m := fun m hm hne =>
      (unused m hm hne).congr ⟨aside.within.node m hne, aside.log m hne⟩
    cases answer with
    | true => exact .right (.inl (node.trans progress)) called unused₁
    | false =>
      exact .right (.inr (World.progress_noted ..)) (called.congr (.noted outR _))
        fun m hm hne => (unused₁ m hm hne).congr (SameAt.noted outL _ m hm)

theorem Tidy.searchLeft
    (callLeft : ∀ {w : World κ (σ × Log)}, l.Tidy unbroken w → l.Idle w.plain →
      KeepsTidy unbroken l (l.solveNoting call fuel w))
    (callRight : ∀ {w : World κ (σ × Log)}, r.Tidy unbroken w → r.Idle w.plain →
      KeepsTidy unbroken r (r.solveNoting call fuel w))
    (progress : (w.node n).progress = .fresh ∨ (w.node n).progress = .inLeft)
    (left : l.Tidy unbroken w) (idle : l.Idle w.plain)
    (unused : ∀ m ∈ r.ids, m ∉ l.ids → Unsolved w m) :
    KeepsTidy unbroken (.or n l r) (disjoinLeft n (l.solveNoting call fuel)
      (r.solveNoting call fuel) l.resetNoting w) := by
  have outL : n ∉ l.ids := coherent.node_not_mem left_part_or
  have outR : n ∉ r.ids := coherent.node_not_mem right_part_or
  have called := callLeft left idle
  rw [disjoinLeft, bind_apply]
  cases ran : l.solveNoting call fuel w with
  | error why w₁ =>
    rw [ran] at called
    have aside := (solveNoting_frame spares l).of_error ran
    have node : (w₁.node n).progress = (w.node n).progress :=
      congrArg Node.progress (aside.within.node n outL)
    exact .left (by rw [node]; exact progress) called fun m hm hne =>
      (unused m hm hne).congr ⟨aside.within.node m hne, aside.log m hne⟩
  | ok answer w₁ =>
    rw [ran] at called
    have aside := (solveNoting_frame spares l).of_ok ran
    have unused₁ : ∀ m ∈ r.ids, m ∉ l.ids → Unsolved w₁ m := fun m hm hne =>
      (unused m hm hne).congr ⟨aside.within.node m hne, aside.log m hne⟩
    cases answer with
    | true =>
      exact .left (.inr (World.progress_noted ..)) (called.congr (.noted outL _))
        fun m hm hne => (unused₁ m hm hne).congr (SameAt.noted outR _ m hm)
    | false =>
      obtain ⟨w₂, rewound, unsolved⟩ := resetNoting_unsolved
        (coherent.mono left_sub_or) (idle.within aside.within)
      have aside₂ := (resetNoting_frame l).of_ok rewound
      -- What the right side shares with the left side has just been reset with it.
      have all : ∀ m ∈ r.ids, Unsolved (w₂.noted n .inRight) m := by
        intro m hm
        refine Unsolved.congr ?_ (SameAt.noted outR _ m hm)
        by_cases shared : m ∈ l.ids
        · exact unsolved m shared
        · exact (unused₁ m hm shared).congr
            ⟨aside₂.within.node m shared, aside₂.log m shared⟩
      simp only [Bool.false_eq_true, if_false, bind_apply, rewound, setProgress_apply]
      exact searchRight spares coherent callRight (World.progress_noted ..) (.of_unsolved all)
        (fun m hm => (all m hm).idle)
        fun m hm _ => (unsolved m hm).congr (SameAt.noted outL _ m hm)

theorem Tidy.searchOr
    (callLeft : ∀ {w : World κ (σ × Log)}, l.Tidy unbroken w → l.Idle w.plain →
      KeepsTidy unbroken l (l.solveNoting call fuel w))
    (callRight : ∀ {w : World κ (σ × Log)}, r.Tidy unbroken w → r.Idle w.plain →
      KeepsTidy unbroken r (r.solveNoting call fuel w))
    (h : (Relation.or n l r).Tidy unbroken w) (idleL : l.Idle w.plain) (idleR : r.Idle w.plain) :
    KeepsTidy unbroken (.or n l r)
      (advanceOr n (l.solveNoting call fuel) (r.solveNoting call fuel) l.resetNoting w) := by
  cases h with
  | left progress left unused =>
    rw [advanceOr_of_left progress]
    exact searchLeft spares coherent callLeft callRight progress left idleL unused
  | right progress right unused =>
    rcases progress with progress | progress
    · rw [advanceOr_of_inRight progress]
      exact searchRight spares coherent callRight progress right idleR unused
    · rw [advanceOr_of_exhausted progress]
      exact .right (.inr progress) right unused

end Disjunction

/-- Closing the call on a conjunction notes how it ended. -/
theorem JoinsTidy.closed (apart : Apart n l r)
    {result : EStateM.Result Interrupt (World κ (σ × Log)) Bool}
    (h : JoinsTidy unbroken n l r result) :
    KeepsTidy unbroken (.and n l r) (match result with
      | .ok answer w => .ok answer ((w.concluded (.and n l r) answer).note n (.answered answer))
      | .error why w => .error why ((w.setBusy n false).note n .interrupted)) := by
  have closed {ids : List Nat} (hn : n ∉ ids) (w : World κ (σ × Log)) (answer : Bool) :
      SameAt ids w ((w.concluded (.and n l r) answer).note n (.answered answer)) :=
    (SameAt.concluded (r := .and n l r) hn w answer).trans (.note hn _ _)
  have cut {ids : List Nat} (hn : n ∉ ids) (w : World κ (σ × Log)) :
      SameAt ids w ((w.setBusy n false).note n .interrupted) :=
    (SameAt.setBusy hn w false).trans (.note hn _ _)
  cases result with
  | ok answer w =>
    obtain ⟨left, right, joined, answered⟩ := h
    have progress : (((w.concluded (.and n l r) answer).note n (.answered answer)).node n).progress =
      (w.node n).progress := World.progress_concluded w (.and n l r) answer
    refine ⟨left.congr (closed apart.left w answer), right.congr (closed apart.right w answer),
      joined.congr (closed apart.left w answer) (closed apart.right w answer) progress, ?_⟩
    -- The conjunction answered `true` just now if that is what has been noted of it.
    rw [World.latest_note, progress]
    intro noted
    obtain ⟨retrying, holds⟩ := answered (by cases noted; rfl)
    refine ⟨retrying, ?_⟩
    unfold Holds at *
    rw [(closed apart.right w answer _ (node_mem_ids r)).2]
    exact holds
  | error why w =>
    obtain ⟨left, right, joined⟩ := h
    have progress : (((w.setBusy n false).note n .interrupted).node n).progress =
      (w.node n).progress := World.progress_setBusy ..
    refine ⟨left.congr (cut apart.left w), right.congr (cut apart.right w),
      joined.congr (cut apart.left w) (cut apart.right w) progress, ?_⟩
    rw [World.latest_note]
    exact nofun

theorem KeepsTidy.closed (outL : n ∉ l.ids) (outR : n ∉ r.ids)
    {result : EStateM.Result Interrupt (World κ (σ × Log)) Bool}
    (h : KeepsTidy unbroken (.or n l r) result) :
    KeepsTidy unbroken (.or n l r) (match result with
      | .ok answer w => .ok answer ((w.concluded (.or n l r) answer).note n (.answered answer))
      | .error why w => .error why ((w.setBusy n false).note n .interrupted)) := by
  cases result with
  | ok answer w =>
    have closed {ids : List Nat} (hn : n ∉ ids) :
        SameAt ids w ((w.concluded (.or n l r) answer).note n (.answered answer)) :=
      (SameAt.concluded (r := .or n l r) hn w answer).trans (.note hn _ _)
    exact Parted.congr h (Tidy.congr · (closed outL)) (Tidy.congr · (closed outR)) (closed outL)
      (closed outR) (World.progress_concluded w (.or n l r) answer)
  | error why w =>
    have cut {ids : List Nat} (hn : n ∉ ids) :
        SameAt ids w ((w.setBusy n false).note n .interrupted) :=
      (SameAt.setBusy hn w false).trans (.note hn _ _)
    exact Parted.congr h (Tidy.congr · (cut outL)) (Tidy.congr · (cut outR)) (cut outL)
      (cut outR) (World.progress_setBusy ..)

/-- **Every call keeps the invariant**, whatever its outcome. -/
theorem Tidy.solve (spares : call.SparesNodes) (coherent : r.Coherent) (separated : r.Separated)
    (h : r.Tidy unbroken w) (idle : r.Idle w.plain) :
    KeepsTidy unbroken r (r.solveNoting call fuel w) := by
  induction r generalizing w with
  | and n a b iha ihb =>
    have ha : a ∈ (Relation.and n a b).subs := left_sub_and
    have hb : b ∈ (Relation.and n a b).subs := right_sub_and
    have apart := Apart.of_separated coherent separated
    have sameA := SameAt.setBusy apart.left w true
    have sameB := SameAt.setBusy apart.right w true
    obtain ⟨left, right, joined, -⟩ := h
    have search : JoinsTidy unbroken n a b (advanceAnd fuel n _ _ _ _) := .step spares apart
      (fun h idle => iha (coherent.mono ha) separated.2.1 h idle)
      (fun h idle => ihb (coherent.mono hb) separated.2.2 h idle)
      (left.congr sameA) (right.congr sameB)
      (joined.congr sameA sameB (World.progress_setBusy ..))
      ((idle.mono ha).setBusy apart.left true) ((idle.mono hb).setBusy apart.right true)
    have own : (w.node (Relation.and n a b).node).busy = false := idle n (node_mem_ids _)
    rw [show (Relation.and n a b).solveNoting call fuel w = _ from noting_answering own]
    exact search.closed apart
  | or n a b iha ihb =>
    have ha : a ∈ (Relation.or n a b).subs := left_sub_or
    have hb : b ∈ (Relation.or n a b).subs := right_sub_or
    have outA : n ∉ a.ids := coherent.node_not_mem left_part_or
    have outB : n ∉ b.ids := coherent.node_not_mem right_part_or
    have sameA := SameAt.setBusy outA w true
    have sameB := SameAt.setBusy outB w true
    have here : (Relation.or n a b).Tidy unbroken (w.setBusy n true) :=
      Parted.congr h (Tidy.congr · sameA) (Tidy.congr · sameB) sameA sameB
        (World.progress_setBusy ..)
    have search := Tidy.searchOr spares coherent
      (fun h idle => iha (coherent.mono ha) separated.1 h idle)
      (fun h idle => ihb (coherent.mono hb) separated.2 h idle) here
      ((idle.mono ha).setBusy outA true) ((idle.mono hb).setBusy outB true)
    have own : (w.node (Relation.or n a b).node).busy = false := idle n (node_mem_ids _)
    rw [show (Relation.or n a b).solveNoting call fuel w = _ from noting_answering own]
    exact search.closed outA outB
  | domain | convert | compare | predicate | always | never =>
    unfold KeepsTidy
    split <;> trivial

theorem Tidy.of_ok {answer : Bool} (ran : r.solveNoting call fuel w = .ok answer w')
    (spares : call.SparesNodes) (coherent : r.Coherent) (separated : r.Separated)
    (h : r.Tidy unbroken w) (idle : r.Idle w.plain) : r.Tidy unbroken w' := by
  have kept : KeepsTidy unbroken r (r.solveNoting call fuel w) :=
    h.solve spares coherent separated idle
  rw [ran] at kept
  exact kept

theorem Tidy.of_error {why : Interrupt} (ran : r.solveNoting call fuel w = .error why w')
    (spares : call.SparesNodes) (coherent : r.Coherent) (separated : r.Separated)
    (h : r.Tidy unbroken w) (idle : r.Idle w.plain) : r.Tidy false w' := by
  have kept : KeepsTidy unbroken r (r.solveNoting call fuel w) :=
    h.solve spares coherent separated idle
  rw [ran] at kept
  exact kept

/-! ## Runs -/

/-- A run of calls on the root, beginning when all its nodes are ready and nothing is noted.  Between two
calls anything may happen to the variables and to the client's state.  It is `unbroken` as long as every
call has answered. -/
inductive Reached (call : Caller κ σ) (root : Relation κ) : Bool → World κ (σ × Log) → Prop
  | start {w : World κ (σ × Log)} (ready : root.Ready w)
      (silent : ∀ m ∈ root.ids, w.latest m = none) : Reached call root true w
  | meanwhile {unbroken : Bool} {w w' : World κ (σ × Log)} (run : Reached call root unbroken w)
      (nodes : w'.nodes = w.nodes) (log : w'.latest = w.latest) : Reached call root unbroken w'
  | answered {unbroken answer : Bool} {w w' : World κ (σ × Log)} (fuel : Nat)
      (run : Reached call root unbroken w) (ran : root.solveNoting call fuel w = .ok answer w') :
    Reached call root unbroken w'
  | interrupted {unbroken : Bool} {why : Interrupt} {w w' : World κ (σ × Log)} (fuel : Nat)
      (run : Reached call root unbroken w) (ran : root.solveNoting call fuel w = .error why w') :
    Reached call root false w'

theorem Reached.tidy (spares : call.SparesNodes) (coherent : root.Coherent)
    (separated : root.Separated) (run : Reached call root unbroken w) :
    root.Tidy unbroken w ∧ root.Idle w.plain := by
  induction run with
  | start ready silent =>
    refine ⟨.of_unsolved fun m hm => ⟨(ready m hm).1, (ready m hm).2, ?_⟩, ready.idle⟩
    rw [silent m hm]
    exact nofun
  | meanwhile _ nodes log ih =>
    have node (m : Nat) : World.node _ m = World.node _ m := congrArg (Table.get · m) nodes
    refine ⟨ih.1.congr fun m _ => ⟨node m, congrFun log m⟩, fun m hm => ?_⟩
    rw [World.node_plain, node m]
    exact ih.2 m hm
  | answered _ _ ran ih =>
    exact ⟨.of_ok ran spares coherent separated ih.1 ih.2,
      ih.2.within ((solveNoting_frame spares root).of_ok ran).within⟩
  | interrupted _ _ ran ih =>
    exact ⟨.of_error ran spares coherent separated ih.1 ih.2,
      ih.2.within ((solveNoting_frame spares root).of_error ran).within⟩

/-- **Exactly when a retrying conjunction's left side holds.**  After every call of a run, the left side
of a retrying conjunction holds a solution unless the latest call on it was interrupted; before the
first interrupted call it always does.  A conjunction that answered `true` is retrying, and its right
side holds a solution. -/
theorem retrying_left_holds_iff_not_cut (spares : call.SparesNodes) (coherent : root.Coherent)
    (separated : root.Separated) (run : Reached call root unbroken w)
    (hs : Relation.and n l r ∈ root.subs) :
    ((w.node n).progress = .retrying →
      (l.Holds w ↔ ¬ l.Cut w) ∧ (unbroken = true → l.Holds w)) ∧
    ((Relation.and n l r).Holds w → (w.node n).progress = .retrying ∧ r.Holds w) := by
  obtain ⟨left, answered⟩ := (run.tidy spares coherent separated).1.knows coherent hs
  refine ⟨fun retrying => ⟨⟨fun holds cut => ?_, fun whole => ?_⟩, fun clean => ?_⟩, answered⟩
  · exact nomatch holds.symm.trans cut
  · exact (left retrying).resolve_right fun h => whole h.2
  · exact (left retrying).resolve_right fun h => nomatch clean.symm.trans h.1

/-- The first call on a conjunction whose left side is a disjunction. -/
theorem reached_first_answer :
    let test : Function := .ofTest fun _ => true
    let left : Relation Function := .or 1 (.domain 2 ⟨0, "X"⟩ [.unit]) (.predicate 3 [⟨2, "Z"⟩] test)
    let root : Relation Function := .and 0 left (.domain 4 ⟨1, "Y"⟩ [.unit])
    ∃ w : World Function (Unit × Log), Reached Function.call root true w ∧ root.Holds w := by
  refine ⟨_, .answered 8 (.start (w := { client := ((), fun _ => none) }) (.blank _ _)
    fun _ _ => rfl) rfl, rfl⟩

/-- Both its sides hold then. -/
theorem first_answer_holds_on_both_sides :
    let test : Function := .ofTest fun _ => true
    let left : Relation Function := .or 1 (.domain 2 ⟨0, "X"⟩ [.unit]) (.predicate 3 [⟨2, "Z"⟩] test)
    let right : Relation Function := .domain 4 ⟨1, "Y"⟩ [.unit]
    ∃ w : World Function (Unit × Log), Reached Function.call (.and 0 left right) true w ∧
      left.Holds w ∧ right.Holds w := by
  obtain ⟨w, run, answered⟩ := reached_first_answer
  have both := retrying_left_holds_iff_not_cut Function.sparesNodes (.of_nodup (by decide))
    (by exact ⟨by decide, ⟨trivial, trivial⟩, trivial⟩) run (mem_subs_self _)
  obtain ⟨retrying, right⟩ := both.2 answered
  exact ⟨w, run, (both.1 retrying).2 rfl, right⟩

/-- A left side that is interrupted while it is advanced: its conjunction stays retrying, and answers
`true` at the next call, with the variable of the left side unbound. -/
theorem cut_left_side_is_passed_over :
    let x : Var := ⟨0, "X"⟩
    let test : Function := .ofTest fun _ => true
    let left : Relation Function := .or 1 (.domain 2 x [.unit]) (.predicate 3 [⟨2, "Z"⟩] test)
    let root : Relation Function := .and 0 left (.domain 4 ⟨1, "Y"⟩ [.unit])
    ∃ w w' : World Function (Unit × Log), Reached Function.call root false w ∧
      (w.node 0).progress = .retrying ∧ ¬ left.Holds w ∧
      root.solveNoting Function.call 8 w = .ok true w' ∧ w'.value x = none := by
  refine ⟨_, _, .interrupted 8 (.answered 8 (.start (w := { client := ((), fun _ => none) })
    (.blank _ _) fun _ _ => rfl) rfl) rfl, rfl, ?_, rfl, rfl⟩
  exact nofun

end Relation
end RelationSearch
