import RelationSearch.Relation.Build
import RelationSearch.Search.Solve

/-! # What a computation does to its world

A computation on a world (`Act`) answers or is interrupted, and leaves a world behind either way.  The
first part evaluates computations step by step: what each primitive answers and which world it leaves.
The second part relates the world before a computation to the world after it, however it ended
(`Act.Keeps`): a preorder that every primitive keeps is kept by everything that is put together from
them.

`answering` and `rewinding`, which make a search into a call of `solve` or `reset`, are evaluated here
too: a call on a node that is not busy is its search, up to the counters and the events, which no
search reads.
-/
namespace RelationSearch

variable {κ σ α β : Type}

namespace World

/-- The world after a node has noted where it pauses. -/
def noted (w : World κ σ) (n : Nat) (progress : Progress) : World κ σ :=
  w.modifyNode n fun node => { node with progress }

theorem node_modifyNode (w : World κ σ) (n m : Nat) (f : Node → Node) :
    (w.modifyNode n f).node m = if n = m then f (w.node m) else w.node m := by
  split
  · rename_i here
    rw [← here, node_modifyNode_self]
  · rename_i there
    exact node_modifyNode_of_ne w f there

/-- What a change of a node keeps at that node, it keeps at all nodes. -/
theorem field_modifyNode (field : Node → α) {f : Node → Node}
    (kept : ∀ node, field (f node) = field node) (w : World κ σ) (n m : Nat) :
    field ((w.modifyNode n f).node m) = field (w.node m) := by
  rw [node_modifyNode]
  split
  · exact kept _
  · rfl

variable (w : World κ σ) (n : Nat) (progress : Progress) (x : Var)

@[simp] theorem cell_noted : (w.noted n progress).cell x = w.cell x := rfl

@[simp] theorem value_noted : (w.noted n progress).value x = w.value x := rfl

@[simp] theorem progress_noted : ((w.noted n progress).node n).progress = progress := by
  simp [noted]

theorem node_noted_of_ne {m : Nat} (h : n ≠ m) : (w.noted n progress).node m = w.node m :=
  node_modifyNode_of_ne _ _ h

theorem node_noted_of_mem {m : Nat} {ids : List Nat} (hn : n ∉ ids) (hm : m ∈ ids) :
    (w.noted n progress).node m = w.node m :=
  node_noted_of_ne _ _ _ fun e => hn (e ▸ hm)

end World

namespace Act

/-! ## Evaluation -/

@[simp] theorem pure_apply (a : α) (w : World κ σ) : (pure a : Act κ σ α) w = .ok a w := rfl

@[simp] theorem bind_apply (act : Act κ σ α) (next : α → Act κ σ β) (w : World κ σ) :
    (act >>= next) w = match act w with
      | .ok a w => next a w
      | .error why w => .error why w := by
  show EStateM.bind act next w = _
  unfold EStateM.bind
  cases act w <;> rfl

/-- A computation that answered had both its steps answer. -/
theorem bind_ok {act : Act κ σ α} {next : α → Act κ σ β} {w w' : World κ σ} {b : β}
    (ran : (act >>= next) w = .ok b w') : ∃ a w₁, act w = .ok a w₁ ∧ next a w₁ = .ok b w' := by
  rw [bind_apply] at ran
  cases first : act w with
  | ok a w₁ => rw [first] at ran; exact ⟨a, w₁, rfl, ran⟩
  | error why w₁ => rw [first] at ran; cases ran

/-- A computation that is seen to answer, with an answer and a world as described. -/
theorem exists_ok {act : Act κ σ α} {w : World κ σ} {p : α → World κ σ → Bool}
    (h : (match act w with
      | .ok a w' => p a w'
      | .error _ _ => false) = true) : ∃ a w', act w = .ok a w' ∧ p a w' = true := by
  cases ran : act w with
  | ok a w' => rw [ran] at h; exact ⟨a, w', rfl, h⟩
  | error why w' => rw [ran] at h; cases h

@[simp] theorem get_apply (w : World κ σ) : (get : Act κ σ (World κ σ)) w = .ok w w := rfl

@[simp] theorem modify_apply (f : World κ σ → World κ σ) (w : World κ σ) :
    (modify f : Act κ σ PUnit) w = .ok ⟨⟩ (f w) := rfl

@[simp] theorem throw_apply (why : Interrupt) (w : World κ σ) :
    (throw why : Act κ σ α) w = .error why w := rfl

@[simp] theorem progress_apply (n : Nat) (w : World κ σ) :
    Act.progress n w = .ok (w.node n).progress w := rfl

@[simp] theorem value_apply (x : Var) (w : World κ σ) : Act.value x w = .ok (w.value x) w := rfl

@[simp] theorem setProgress_apply (n : Nat) (progress : Progress) (w : World κ σ) :
    Act.setProgress n progress w = .ok ⟨⟩ (w.noted n progress) := rfl

@[simp] theorem record_apply (event : World κ σ → Event) (w : World κ σ) :
    Act.record event w = .ok ⟨⟩ (w.record event) := rfl

@[simp] theorem unbind_apply (x : Var) (w : World κ σ) :
    (x.unbind : Act κ σ Unit) w = .ok ⟨⟩ (w.modifyCell x Cell.clear) := rfl

@[simp] theorem dropWatch_apply (x : Var) (id : Nat) (w : World κ σ) :
    (x.dropWatch id : Act κ σ Unit) w = .ok ⟨⟩ (w.modifyCell x (·.dropWatch id)) := rfl

@[simp] theorem addWatch_apply (x other : Var) (c : Comparison κ) (onLeft : Bool) (w : World κ σ) :
    (x.addWatch other c onLeft : Act κ σ Nat) w =
      .ok (w.cell x).nextWatch (w.modifyCell x (·.addWatch other c onLeft)) := rfl

/-! ## Before and after -/

/-- The world that a computation leaves behind. -/
def final (act : Act κ σ α) (w : World κ σ) : World κ σ :=
  match act w with
  | .ok _ w' | .error _ w' => w'

theorem final_of_ok {act : Act κ σ α} {w w' : World κ σ} {a : α} (h : act w = .ok a w') :
    act.final w = w' := by
  simp [final, h]

theorem final_of_error {act : Act κ σ α} {w w' : World κ σ} {why : Interrupt}
    (h : act w = .error why w') : act.final w = w' := by
  simp [final, h]

/-- A relation between worlds that runs of several steps inherit from their steps. -/
structure Steady (P : World κ σ → World κ σ → Prop) : Prop where
  refl : ∀ w, P w w
  trans : ∀ {u v w}, P u v → P v w → P u w

/-- The world before the computation and the one after it are in the relation `P`, whether the
computation answers or is interrupted. -/
def Keeps (P : World κ σ → World κ σ → Prop) (act : Act κ σ α) : Prop :=
  ∀ w, P w (act.final w)

variable {P : World κ σ → World κ σ → Prop}

theorem Keeps.of_ok {act : Act κ σ α} {w w' : World κ σ} {a : α} (h : act.Keeps P)
    (ran : act w = .ok a w') : P w w' :=
  final_of_ok ran ▸ h w

theorem Keeps.of_error {act : Act κ σ α} {w w' : World κ σ} {why : Interrupt} (h : act.Keeps P)
    (ran : act w = .error why w') : P w w' :=
  final_of_error ran ▸ h w

theorem Keeps.pure (hP : Steady P) (a : α) : Keeps P (Pure.pure a : Act κ σ α) := hP.refl

theorem Keeps.throw (hP : Steady P) (why : Interrupt) :
    Keeps P (MonadExcept.throw why : Act κ σ α) := hP.refl

theorem Keeps.bind (hP : Steady P) {act : Act κ σ α} {next : α → Act κ σ β} (h : act.Keeps P)
    (hn : ∀ a, (next a).Keeps P) : (act >>= next).Keeps P := by
  intro w
  have first := h w
  unfold final at first ⊢
  rw [bind_apply]
  cases ran : act w with
  | ok a w' =>
    rw [ran] at first
    exact hP.trans first (hn a w')
  | error why w' =>
    rw [ran] at first
    exact first

theorem Keeps.get_bind (hP : Steady P) {next : World κ σ → Act κ σ β}
    (hn : ∀ w, (next w).Keeps P) : (get >>= next).Keeps P :=
  .bind hP hP.refl hn

theorem Keeps.progress (hP : Steady P) (n : Nat) : (Act.progress n : Act κ σ _).Keeps P := hP.refl

theorem Keeps.value (hP : Steady P) (x : Var) : (Act.value x : Act κ σ _).Keeps P := hP.refl

/-- A computation that answers a Boolean, on which the rest depends. -/
theorem Keeps.ite (hP : Steady P) {test : Act κ σ Bool} {yes no : Act κ σ β} (h : test.Keeps P)
    (hy : yes.Keeps P) (hn : no.Keeps P) :
    Keeps P (do if ← test then yes else no) :=
  .bind hP h fun b => by cases b <;> assumption

end Act

/-! ## Creation -/

/-- The world with one more node. -/
def World.added (w : World κ σ) : World κ σ := { w with nodes := w.nodes.push { owners := 1 } }

theorem World.node_added_of_lt {w : World κ σ} {m : Nat} (h : m < w.nodes.size) :
    w.added.node m = w.node m := by
  rw [node, added, Table.get_push, if_neg (Nat.ne_of_lt h)]
  rfl

theorem World.node_added (w : World κ σ) : w.added.node w.nodes.size = { owners := 1 } := by
  rw [node, added, Table.get_push, if_pos rfl]

theorem Relation.create_apply (make : Nat → Relation κ) (w : World κ σ) :
    create make w = .ok (make w.nodes.size) w.added := rfl

/-! ## Calls -/

namespace World

/-- The world after a call of `solve` on a relation that answered, from the world its search left. -/
def concluded (w : World κ σ) (r : Relation κ) (answer : Bool) : World κ σ :=
  ((w.setBusy r.node false).modifyNode r.node fun node => { node with
    counters := { node.counters with
      solveCalls := node.counters.solveCalls + 1
      successes := node.counters.successes + answer.toNat } }).record
    fun w => .solved (w.image r) answer

/-- The world after a call of `reset` on a relation, from the world that its undoing left. -/
def rewound (w : World κ σ) (r : Relation κ) : World κ σ :=
  (((w.noted r.node .fresh).setBusy r.node false).modifyNode r.node fun node => { node with
    counters := { node.counters with resets := node.counters.resets + 1 } }).record
    fun w => .rewound (w.image r)

variable (w : World κ σ) (r : Relation κ) (answer busy : Bool) {m n : Nat} (x : Var)

@[simp] theorem value_modifyNode (n : Nat) (f : Node → Node) :
    (w.modifyNode n f).value x = w.value x := rfl

@[simp] theorem value_record (event : World κ σ → Event) :
    (w.record event).value x = w.value x := by
  simp [value]

@[simp] theorem client_record (event : World κ σ → Event) : (w.record event).client = w.client := by
  unfold record
  split <;> rfl

@[simp] theorem cell_setBusy : (w.setBusy n busy).cell x = w.cell x := rfl

@[simp] theorem value_setBusy : (w.setBusy n busy).value x = w.value x := rfl

@[simp] theorem progress_setBusy :
    ((w.setBusy n busy).node m).progress = (w.node m).progress := by
  refine field_modifyNode Node.progress ?_ w n m
  exact fun _ => rfl

theorem node_setBusy_of_ne (h : n ≠ m) : (w.setBusy n busy).node m = w.node m :=
  node_modifyNode_of_ne _ _ h

@[simp] theorem cell_concluded : (w.concluded r answer).cell x = w.cell x := by
  simp [concluded]

@[simp] theorem value_concluded : (w.concluded r answer).value x = w.value x := by
  simp [concluded]

theorem node_concluded_of_ne (h : r.node ≠ m) : (w.concluded r answer).node m = w.node m := by
  simp [concluded, node_modifyNode_of_ne _ _ h, node_setBusy_of_ne _ _ h]

@[simp] theorem progress_concluded :
    ((w.concluded r answer).node m).progress = (w.node m).progress := by
  by_cases h : r.node = m
  · subst h; simp [concluded, setBusy]
  · rw [node_concluded_of_ne _ _ _ h]

@[simp] theorem busy_concluded : ((w.concluded r answer).node r.node).busy = false := by
  simp [concluded, setBusy]

@[simp] theorem cell_rewound : (w.rewound r).cell x = w.cell x := by
  simp [rewound]

@[simp] theorem value_rewound : (w.rewound r).value x = w.value x := by
  simp [rewound]

theorem node_rewound_of_ne (h : r.node ≠ m) : (w.rewound r).node m = w.node m := by
  simp [rewound, node_modifyNode_of_ne _ _ h, node_setBusy_of_ne _ _ h, node_noted_of_ne _ _ _ h]

@[simp] theorem progress_rewound : ((w.rewound r).node r.node).progress = .fresh := by
  simp [rewound, setBusy]

@[simp] theorem busy_rewound : ((w.rewound r).node r.node).busy = false := by
  simp [rewound, setBusy]

end World

theorem answering_of_busy {r : Relation κ} {search : Act κ σ Bool} {w : World κ σ}
    (h : (w.node r.node).busy = true) :
    answering r search w = .error (.reentrant (w.node r.node).label) w := by
  simp [answering, h]

theorem answering_of_idle {r : Relation κ} {search : Act κ σ Bool} {w : World κ σ}
    (h : (w.node r.node).busy = false) :
    answering r search w = match search (w.setBusy r.node true) with
      | .ok answer w' => .ok answer (w'.concluded r answer)
      | .error why w' => .error why (w'.setBusy r.node false) := by
  simp only [answering, Act.bind_apply, Act.get_apply, h, Bool.false_eq_true, if_false, Act.holding]
  cases search (w.setBusy r.node true) <;> rfl

theorem ok_of_answering {r : Relation κ} {search : Act κ σ Bool} {w w' : World κ σ} {answer : Bool}
    (ran : answering r search w = .ok answer w') :
    ∃ w₁, search (w.setBusy r.node true) = .ok answer w₁ ∧ w' = w₁.concluded r answer := by
  cases idle : (w.node r.node).busy with
  | true => rw [answering_of_busy idle] at ran; cases ran
  | false =>
    rw [answering_of_idle idle] at ran
    cases searched : search (w.setBusy r.node true) with
    | ok answer w₁ => rw [searched] at ran; cases ran; exact ⟨w₁, rfl, rfl⟩
    | error why w₁ => rw [searched] at ran; cases ran

theorem rewinding_of_busy {r : Relation κ} {undo : Act κ σ Unit} {w : World κ σ}
    (h : (w.node r.node).busy = true) : rewinding r undo w = .error .busy w := by
  simp [rewinding, h]

theorem rewinding_of_idle {r : Relation κ} {undo : Act κ σ Unit} {w : World κ σ}
    (h : (w.node r.node).busy = false) :
    rewinding r undo w = match undo (w.setBusy r.node true) with
      | .ok _ w' => .ok ⟨⟩ (w'.rewound r)
      | .error why w' => .error why (w'.setBusy r.node false) := by
  simp only [rewinding, Act.bind_apply, Act.get_apply, h, Bool.false_eq_true, if_false, Act.holding]
  cases undo (w.setBusy r.node true) <;> rfl

theorem rewinding_ok {r : Relation κ} {undo : Act κ σ Unit} {w w' : World κ σ}
    (ran : rewinding r undo w = .ok ⟨⟩ w') :
    ∃ w₁, undo (w.setBusy r.node true) = .ok ⟨⟩ w₁ ∧ w' = w₁.rewound r := by
  cases idle : (w.node r.node).busy with
  | true => rw [rewinding_of_busy idle] at ran; cases ran
  | false =>
    rw [rewinding_of_idle idle] at ran
    cases undone : undo (w.setBusy r.node true) with
    | ok _ w₁ => rw [undone] at ran; cases ran; exact ⟨w₁, rfl, rfl⟩
    | error why w₁ => rw [undone] at ran; cases ran

/-- Whether its search answers or is interrupted, a call of `solve` on a node that is not busy comes from
the search, with the node busy, and takes the mark back. -/
theorem keeps_answering {P Q : World κ σ → World κ σ → Prop} {r : Relation κ}
    {search : Act κ σ Bool} (h : search.Keeps P) (refl : ∀ w, Q w w)
    (ended : ∀ w w', (w.node r.node).busy = false → P (w.setBusy r.node true) w' →
      Q w (w'.setBusy r.node false) ∧ ∀ answer, Q w (w'.concluded r answer)) :
    Act.Keeps Q (answering r search) := by
  intro w
  cases idle : (w.node r.node).busy with
  | true => rw [Act.final_of_error (answering_of_busy idle)]; exact refl w
  | false =>
    have left := ended w _ idle (h (w.setBusy r.node true))
    unfold Act.final at left ⊢
    rw [answering_of_idle idle]
    generalize search (w.setBusy r.node true) = result at left
    cases result with
    | ok answer w' => exact left.2 answer
    | error why w' => exact left.1

/-- Whether its undoing comes back or not, a call of `reset` on a node that is not busy comes from the
undoing, with the node busy, and takes the mark back. -/
theorem keeps_rewinding {P Q : World κ σ → World κ σ → Prop} {r : Relation κ}
    {undo : Act κ σ Unit} (h : undo.Keeps P) (refl : ∀ w, Q w w)
    (ended : ∀ w w', (w.node r.node).busy = false → P (w.setBusy r.node true) w' →
      Q w (w'.setBusy r.node false) ∧ Q w (w'.rewound r)) :
    Act.Keeps Q (rewinding r undo) := by
  intro w
  cases idle : (w.node r.node).busy with
  | true => rw [Act.final_of_error (rewinding_of_busy idle)]; exact refl w
  | false =>
    have left := ended w _ idle (h (w.setBusy r.node true))
    unfold Act.final at left ⊢
    rw [rewinding_of_idle idle]
    generalize undo (w.setBusy r.node true) = result at left
    cases result with
    | ok _ w' => exact left.2
    | error why w' => exact left.1

/-! ## The turns of the sides

What a conjunction and a disjunction do next depends on where they pause: one side has its turn, or there
is nothing left. -/

section Turns

variable {n fuel : Nat} {left right : Act κ σ Bool} {rewind : Act κ σ Unit} {w : World κ σ}

/-- The right side of a conjunction has its turn, under the left solution that is in place.  When it has
no more solutions, it is rewound, and the left side goes on. -/
def conjoinRight (n : Nat) (left right : Act κ σ Bool) (rewindRight : Act κ σ Unit) (fuel : Nat) :
    Act κ σ Bool := do
  if ← right then return true
  else
    rewindRight
    conjoin n left right rewindRight fuel

/-- The left side of a disjunction has its turn.  When it has no more solutions, it is rewound, and the
right side has its turn. -/
def disjoinLeft (n : Nat) (left right : Act κ σ Bool) (rewindLeft : Act κ σ Unit) : Act κ σ Bool := do
  if ← left then
    Act.setProgress n .inLeft
    return true
  else
    rewindLeft
    Act.setProgress n .inRight
    disjoinRight n right

theorem conjoin_succ (n : Nat) (left right : Act κ σ Bool) (rewind : Act κ σ Unit) (fuel : Nat) :
    conjoin n left right rewind (fuel + 1) = do
      if ← left then
        Act.setProgress n .retrying
        conjoinRight n left right rewind fuel
      else
        Act.setProgress n .exhausted
        return false := rfl

theorem advanceAnd_of_exhausted (exhausted : (w.node n).progress = .exhausted) :
    advanceAnd fuel n left right rewind w = .ok false w := by
  rw [advanceAnd, Act.bind_apply, Act.progress_apply, exhausted]
  rfl

theorem advanceAnd_of_retrying (retrying : (w.node n).progress = .retrying) :
    advanceAnd fuel n left right rewind w = conjoinRight n left right rewind fuel w := by
  rw [advanceAnd, Act.bind_apply, Act.progress_apply, retrying]
  rfl

theorem advanceAnd_of_ne (unexhausted : (w.node n).progress ≠ .exhausted)
    (unanswered : (w.node n).progress ≠ .retrying) :
    advanceAnd fuel n left right rewind w = conjoin n left right rewind fuel w := by
  rw [advanceAnd, Act.bind_apply, Act.progress_apply]
  cases progress : (w.node n).progress with
  | exhausted => exact absurd progress unexhausted
  | retrying => exact absurd progress unanswered
  | _ => rfl

theorem advanceAnd_of_fresh (fresh : (w.node n).progress = .fresh) :
    advanceAnd fuel n left right rewind w = conjoin n left right rewind fuel w :=
  advanceAnd_of_ne (by simp [fresh]) (by simp [fresh])

theorem advanceOr_of_exhausted (exhausted : (w.node n).progress = .exhausted) :
    advanceOr n left right rewind w = .ok false w := by
  rw [advanceOr, Act.bind_apply, Act.progress_apply, exhausted]
  rfl

theorem advanceOr_of_inRight (inRight : (w.node n).progress = .inRight) :
    advanceOr n left right rewind w = disjoinRight n right w := by
  rw [advanceOr, Act.bind_apply, Act.progress_apply, inRight]

theorem advanceOr_of_ne (unexhausted : (w.node n).progress ≠ .exhausted)
    (onLeft : (w.node n).progress ≠ .inRight) :
    advanceOr n left right rewind w = disjoinLeft n left right rewind w := by
  rw [advanceOr, Act.bind_apply, Act.progress_apply]
  cases progress : (w.node n).progress with
  | exhausted => exact absurd progress unexhausted
  | inRight => exact absurd progress onLeft
  | _ => rfl

theorem advanceOr_of_left (onLeft : (w.node n).progress = .fresh ∨ (w.node n).progress = .inLeft) :
    advanceOr n left right rewind w = disjoinLeft n left right rewind w := by
  rcases onLeft with progress | progress
  · exact advanceOr_of_ne (by simp [progress]) (by simp [progress])
  · exact advanceOr_of_ne (by simp [progress]) (by simp [progress])

end Turns

end RelationSearch
