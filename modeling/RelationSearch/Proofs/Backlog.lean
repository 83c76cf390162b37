import RelationSearch.Proofs.Ledger

/-! # How many answers are left

Wherever a relation paused, only so many answers are left (`Relation.backlog`): a domain has the values it
has not offered, and a combination has what its sides have left.  A conversion is the one relation that
can come to have an answer again without being reset, when its source is bound anew; what it waits for
may then be the work of the other side of a conjunction, and is undone before the conversion is
asked.  So the backlog is taken with some variables *hidden*, as if they were unbound: for the left side
of a conjunction, those that its right side owns.

What a run of one relation leaves behind (`Trail`) shows that it does not add to the backlog of relations
with other nodes (`Relation.backlog_le`).
-/
namespace RelationSearch

open Act RelationSearch.Relation

variable {κ σ : Type} {call : Caller κ σ} {fuel n : Nat} {root r s t l : Relation κ} {x : Var}
variable {w w' : World κ σ}

/-! ## What a run leaves behind -/

/-- Since some time the cell has changed only while its binding was owned, and what was owned is unbound
unless it is owned still. -/
structure Cell.Trailed (c₀ : Cell κ) (owned₀ : Prop) (c : Cell κ) (owned : Prop) : Prop where
  gained : owned → owned₀ ∨ c₀.value = none
  lost : owned₀ → ¬ owned → c.value = none
  free : ¬ owned₀ → ¬ owned → c.value = c₀.value
  generation : ¬ owned₀ → c₀.value.isSome → c.generation = c₀.generation

theorem Cell.Trailed.refl (c : Cell κ) (owned : Prop) : Trailed c owned c owned :=
  ⟨.inl, fun own unowned => absurd own unowned, fun _ _ => rfl, fun _ _ => rfl⟩

/-- A binding that is owned may be changed. -/
theorem Cell.Trailed.rebind {c₀ c c' : Cell κ} {owned₀ owned : Prop}
    (h : Trailed c₀ owned₀ c owned) (own : owned) : Trailed c₀ owned₀ c' owned where
  gained := h.gained
  lost _ unowned := absurd own unowned
  free _ unowned := absurd own unowned
  generation unowned bound := by
    rw [(h.gained own).resolve_left unowned] at bound
    cases bound

theorem Cell.Trailed.ledger (before : Nat → Cell κ) (owned₀ : Nat → Prop) :
    Ledger fun i c owned _ => Trailed (before i) (owned₀ i) c owned where
  put h own _ := h.rebind own
  clear h own := h.rebind own
  addWatch h _ _ _ _ := ⟨h.gained, h.lost, h.free, h.generation⟩
  drop h _ _ := ⟨h.gained, h.lost, h.free, h.generation⟩
  change := by
    intro i c owned _ owned' _ h gained lost _ _
    -- The cell stays; only who answers for it changes, and it was unbound if that is new.
    refine ⟨fun own => ?_, fun own₀ unowned => ?_, fun unowned₀ unowned => ?_, h.generation⟩
    · by_cases before : owned
      · exact h.gained before
      · by_cases own₀ : owned₀ i
        · exact .inl own₀
        · rw [← h.free own₀ before]
          exact .inr ((gained own).resolve_left before)
    · by_cases before : owned
      · exact lost before unowned
      · exact h.lost own₀ before
    · by_cases before : owned
      · rw [lost before unowned, (h.gained before).resolve_left unowned₀]
      · exact h.free unowned₀ before

/-- From the one world to the other, variables have changed only while the relation owned them. -/
def Trail (r : Relation κ) (w w' : World κ σ) : Prop :=
  ∀ x, (w.cell x).Trailed (r.Owned w x) (w'.cell x) (r.Owned w' x)

/-- Every node pauses at a proper place. -/
def Relation.Poised (r : Relation κ) (w : World κ σ) : Prop :=
  ∀ s ∈ r.subs, s.Proper (w.node s.node).progress

namespace Relation.Poised

theorem mono (h : root.Poised w) (hs : s ∈ root.subs) : s.Poised w :=
  fun t ht => h t (mem_subs_trans ht hs)

theorem congr (h : r.Poised w) (same : ∀ m ∈ r.ids, (w'.node m).progress = (w.node m).progress) :
    r.Poised w' := by
  intro s hs
  rw [same _ (List.mem_map_of_mem hs)]
  exact h s hs

theorem of_ready (h : r.Ready w) : r.Poised w := proper_of_fresh fun m hm => (h m hm).1

/-- A run that keeps all books ends with every node at a proper place. -/
theorem final {α : Type} {act : Act κ σ α} (h : r.Poised w)
    (kept : ∀ A, Ledger A → Keeps (KeepsBooks A r) act) : r.Poised (act.final w) :=
  (kept (fun _ _ _ _ => True) ⟨fun _ _ _ => trivial, fun _ _ => trivial, fun _ _ _ _ _ => trivial,
    fun _ _ _ => trivial, fun _ _ _ _ _ => trivial⟩ w ⟨fun _ => trivial, h⟩).proper

/-- A run that keeps all books leaves a trail. -/
theorem trail {α : Type} {act : Act κ σ α} (h : r.Poised w)
    (kept : ∀ A, Ledger A → Keeps (KeepsBooks A r) act) : Trail r w (act.final w) := by
  intro x
  have ledger := Cell.Trailed.ledger w.cells.get fun i => r.Owned w ⟨i, ""⟩
  have name (y : Var) : r.Owned w ⟨y.id, ""⟩ = r.Owned w y := owned_congr r w rfl
  have begun : Books (fun i c owned _ => Cell.Trailed (w.cells.get i) (r.Owned w ⟨i, ""⟩) c owned)
      r w := ⟨fun y => by rw [name]; exact .refl (w.cell y) _, h⟩
  have after := (kept _ ledger w begun).cells x
  rw [name] at after
  exact after

theorem solve (h : root.Poised w) (quiet : call.Quiet) (coherent : root.Coherent)
    (hs : s ∈ root.subs) : root.Poised ((s.solve call fuel).final w) :=
  h.final fun _ ledger => Books.solve ledger quiet coherent hs

theorem reset (h : root.Poised w) (coherent : root.Coherent) (hs : s ∈ root.subs) :
    root.Poised (s.reset.final w) :=
  h.final fun _ ledger => Books.reset ledger coherent hs

theorem trail_solve (h : root.Poised w) (quiet : call.Quiet) (coherent : root.Coherent)
    (hs : s ∈ root.subs) : Trail root w ((s.solve call fuel).final w) :=
  h.trail fun _ ledger => Books.solve ledger quiet coherent hs

theorem trail_reset (h : root.Poised w) (coherent : root.Coherent) (hs : s ∈ root.subs) :
    Trail root w (s.reset.final w) :=
  h.trail fun _ ledger => Books.reset ledger coherent hs

end Relation.Poised

/-! ## The backlog -/

open Classical in
/-- How many answers a relation has left at most, while some variables count as unbound. -/
noncomputable def Relation.backlog (w : World κ σ) : Relation κ → (Var → Prop) → Nat
  | .domain n _ values, _ =>
    match (w.node n).progress with
    | .fresh => max 1 values.length
    | .binding rest => rest.length
    | _ => 0
  | .convert n x _ _, hidden =>
    match (w.node n).progress with
    | .applied generation _ =>
      if ¬ hidden x ∧ (w.value x).isSome ∧ (w.cell x).generation ≠ generation then 1 else 0
    | _ => 1
  | .compare n _ _ _, _ | .predicate n _ _, _ | .always n, _ =>
    match (w.node n).progress with
    | .fired _ => 0
    | _ => 1
  | .never _, _ => 0
  | .and n l r, hidden =>
    match (w.node n).progress with
    | .exhausted => 0
    | .retrying => r.backlog w hidden + l.backlog w (fun x => hidden x ∨ r.Owned w x) * r.weight
    | _ => l.backlog w hidden * r.weight
  | .or n l r, hidden =>
    match (w.node n).progress with
    | .exhausted => 0
    | .inRight => r.backlog w hidden
    | _ => l.backlog w hidden + r.weight

/-- How many answers a relation has left at most. -/
noncomputable def Relation.remaining (r : Relation κ) (w : World κ σ) : Nat :=
  r.backlog w fun _ => False

/-- How many answers a left side has left once the right side has given up what it owns. -/
noncomputable def Relation.remainingBeside (l r : Relation κ) (w : World κ σ) : Nat :=
  l.backlog w fun x => False ∨ r.Owned w x

/-- Whatever counts as bound in the second world counted as bound in the first one, by the same binding. -/
def Covers (w : World κ σ) (hidden : Var → Prop) (w' : World κ σ) (hidden' : Var → Prop) : Prop :=
  ∀ x, ¬ hidden' x → (w'.value x).isSome →
    ¬ hidden x ∧ (w.value x).isSome ∧ (w'.cell x).generation = (w.cell x).generation

theorem Covers.of_cells {hidden hidden' : Var → Prop} (cell : ∀ x, w'.cell x = w.cell x)
    (more : ∀ x, hidden x → hidden' x) : Covers w hidden w' hidden' := by
  intro x shown bound
  have same : w'.value x = w.value x := congrArg Cell.value (cell x)
  rw [same] at bound
  refine ⟨?_, bound, by rw [cell]⟩
  intro covered
  exact shown (more x covered)

/-- While the variables that the relation owns are hidden, its runs bind nothing. -/
theorem Trail.covers (trail : Trail r w w') (hidden : Var → Prop) :
    Covers w (fun x => hidden x ∨ r.Owned w x) w' (fun x => hidden x ∨ r.Owned w' x) := by
  intro x shown bound
  have unowned : ¬ r.Owned w' x := fun own => shown (.inr own)
  -- What was owned and is not any more would be unbound.
  have unowned₀ : ¬ r.Owned w x := by
    intro own
    rw [show w'.value x = none from (trail x).lost own unowned] at bound
    cases bound
  have same : w'.value x = w.value x := (trail x).free unowned₀ unowned
  rw [same] at bound
  refine ⟨?_, bound, (trail x).generation unowned₀ bound⟩
  rintro (covered | own)
  · exact shown (.inl covered)
  · exact unowned₀ own

namespace Relation

/-- **A relation whose nodes are left alone gets no more answers**, if nothing comes to count as bound. -/
theorem backlog_le {hidden hidden' : Var → Prop} (covers : Covers w hidden w' hidden')
    (same : ∀ m ∈ t.ids, (w'.node m).progress = (w.node m).progress) :
    t.backlog w' hidden' ≤ t.backlog w hidden := by
  induction t generalizing hidden hidden' with
  | convert n x y f =>
    have here := same n (node_mem_ids _)
    rw [backlog, backlog, here]
    split
    · split
      · rename_i shown
        obtain ⟨unhidden, bound, generation⟩ := covers x shown.1 shown.2.1
        exact Nat.le_of_eq (if_pos ⟨unhidden, bound, generation ▸ shown.2.2⟩).symm
      · omega
    · omega
  | and n l r ihl ihr =>
    have here := same n (node_mem_ids _)
    have left : ∀ m ∈ l.ids, (w'.node m).progress = (w.node m).progress := by
      intro m hm
      exact same m (mem_ids_of_mem_subs left_sub_and hm)
    have right : ∀ m ∈ r.ids, (w'.node m).progress = (w.node m).progress := by
      intro m hm
      exact same m (mem_ids_of_mem_subs right_sub_and hm)
    -- Nothing has changed in what the right side owns.
    have covers' : Covers w (fun x => hidden x ∨ r.Owned w x) w'
        (fun x => hidden' x ∨ r.Owned w' x) := by
      intro x shown bound
      obtain ⟨unhidden, before⟩ := covers x (fun h => shown (.inl h)) bound
      refine ⟨?_, before⟩
      rintro (covered | own)
      · exact unhidden covered
      · exact shown (.inr (own.congr right))
    rw [backlog, backlog, here]
    split
    · omega
    · exact Nat.add_le_add (ihr covers right) (Nat.mul_le_mul_right _ (ihl covers' left))
    · exact Nat.mul_le_mul_right _ (ihl covers left)
  | or n l r ihl ihr =>
    have here := same n (node_mem_ids _)
    have left : ∀ m ∈ l.ids, (w'.node m).progress = (w.node m).progress := by
      intro m hm
      exact same m (mem_ids_of_mem_subs left_sub_or hm)
    have right : ∀ m ∈ r.ids, (w'.node m).progress = (w.node m).progress := by
      intro m hm
      exact same m (mem_ids_of_mem_subs right_sub_or hm)
    rw [backlog, backlog, here]
    split
    · omega
    · exact ihr covers right
    · exact Nat.add_le_add_right (ihl covers left) _
  | domain n | compare n | predicate n | always n =>
    exact Nat.le_of_eq (by rw [backlog, backlog, same n (node_mem_ids _)])
  | never n => exact Nat.zero_le _

theorem remaining_congr (cell : ∀ x, w'.cell x = w.cell x)
    (same : ∀ m ∈ t.ids, (w'.node m).progress = (w.node m).progress) :
    t.remaining w' = t.remaining w :=
  Nat.le_antisymm (backlog_le (.of_cells cell fun _ => id) same)
    (backlog_le (.of_cells (fun x => (cell x).symm) fun _ => id) fun m hm => (same m hm).symm)

theorem remainingBeside_le_remaining : l.remainingBeside r w ≤ l.remaining w :=
  backlog_le (.of_cells (fun _ => rfl) fun _ => False.elim) fun _ _ => rfl

/-- What the right side does gives the left side no answers back. -/
theorem remainingBeside_le (trail : Trail r w w') (same : ∀ m ∈ l.ids, w'.node m = w.node m) :
    l.remainingBeside r w' ≤ l.remainingBeside r w :=
  backlog_le (trail.covers _) fun m hm => by rw [same m hm]

/-- Once it is reset, the right side owns nothing that would be hidden from the left side. -/
theorem remaining_le_beside (trail : Trail r w w') (ready : r.Ready w')
    (same : ∀ m ∈ l.ids, w'.node m = w.node m) : l.remaining w' ≤ l.remainingBeside r w := by
  have unowned (x : Var) : ¬ r.Owned w' x := not_owned_of_fresh fun m hm => (ready m hm).1
  refine backlog_le (fun x _ bound => ?_) fun m hm => by rw [same m hm]
  exact trail.covers (fun _ => False) x (fun h => h.elim id (unowned x)) bound

theorem remaining_retrying (h : (w.node n).progress = .retrying) :
    (Relation.and n l r).remaining w = r.remaining w + l.remainingBeside r w * r.weight := by
  rw [remaining, backlog, h]
  rfl

theorem remaining_inLeft (h : (w.node n).progress = .inLeft) :
    (Relation.or n l r).remaining w = l.remaining w + r.weight := by
  rw [remaining, backlog, h]
  rfl

theorem remaining_inRight (h : (w.node n).progress = .inRight) :
    (Relation.or n l r).remaining w = r.remaining w := by
  rw [remaining, backlog, h]
  rfl

/-- A relation weighs as many answers as it can have left. -/
theorem backlog_le_weight (h : t.Poised w) (hidden : Var → Prop) :
    t.backlog w hidden ≤ t.weight := by
  induction t generalizing hidden with
  | domain n x values =>
    have proper : (Relation.domain n x values).Proper (w.node n).progress := h _ (mem_subs_self _)
    rw [backlog, weight]
    cases progress : (w.node n).progress with
    | fresh => exact Nat.le_refl _
    | binding rest =>
      rw [progress] at proper
      exact Nat.le_trans proper (Nat.le_max_right ..)
    | _ => exact Nat.zero_le _
  | convert n x y f =>
    rw [backlog, weight]
    split
    · split <;> omega
    · omega
  | and n l r ihl ihr =>
    have left := fun hidden => ihl (h.mono left_sub_and) hidden
    have right := ihr (h.mono right_sub_and) hidden
    rw [backlog, weight_and]
    split
    · omega
    · have := Nat.mul_le_mul_right r.weight (left fun x => hidden x ∨ r.Owned w x)
      omega
    · have := Nat.mul_le_mul_right r.weight (left hidden)
      omega
  | or n l r ihl ihr =>
    have left := ihl (h.mono left_sub_or) hidden
    have right := ihr (h.mono right_sub_or) hidden
    rw [backlog, weight]
    split
    · omega
    · omega
    · omega
  | compare n | predicate n | always n =>
    rw [backlog, weight]
    split <;> omega
  | never n => exact Nat.zero_le _

theorem remaining_le_weight (h : t.Poised w) : t.remaining w ≤ t.weight :=
  backlog_le_weight h _

end Relation
end RelationSearch
