import RelationSearch.Proofs.LeafSearch

/-! # The search is depth-first search

Calling `solve` again and again holds the relation's dialogue (`Relation.Converses.of_ready`).  Where
callbacks are functions it therefore delivers the relation's answers, in their order, and after the
last one its interrupt, or `false` with everything restored.  If all comparisons are of two variables,
these are the answers of the relation's meaning (`Relation.solve_yields_meaning`).

The proof is an induction on the relation.  Its statement is that a relation which is ready in a world
that shows an environment has its dialogue there to hold.  A conjunction keeps the world in which its
left side paused: its right side is started there and restores it (`Conjoined`).  A disjunction keeps
the world in which its right side was started (`Disjoined`).

The sides of a conjunction must not share nodes, since a call on the right side would move the left
one; the sides of a disjunction may, since the left one is rewound before the right one is called.
-/
namespace RelationSearch

open Act

variable {κ σ : Type} {fuel : Nat} {reply : Replies κ σ}
variable {start w w' : World κ σ} {env : Env κ} {d : Dialogue κ}

namespace Relation

variable {n : Nat} {l r s : Relation κ}

/-- A call leaves the nodes of other relations alone. -/
theorem node_of_solve {b : Bool} (ran : r.solve reply.call fuel w = .ok b w') {m : Nat}
    (hm : m ∉ r.ids) : w'.node m = w.node m :=
  ((solve_frame reply.sparesNodes r).of_ok ran).node m hm

/-! ## Conjunctions -/

/-- The invariant of a conjunction.  While it is retrying, the left side waits in the world where it
`paused`, and the right side, which was started in that world, is under way. -/
inductive Conjoined (reply : Replies κ σ) (fuel n : Nat) (l r : Relation κ) (start : World κ σ) :
    Dialogue κ → World κ σ → Prop
  | fresh {w : World κ σ} {waiting : Dialogue κ} {m : Nat}
      (progress : (w.node n).progress = .fresh) (left : l.Converses reply fuel start waiting w)
      (right : r.Ready w) (few : waiting.AtMost m) (enough : m < fuel) :
    Conjoined reply fuel n l r start (waiting.bind r.dialogue) w
  | retrying {w paused : World κ σ} {waiting current : Dialogue κ} {m : Nat}
      (progress : (w.node n).progress = .retrying)
      (left : l.Converses reply fuel start waiting paused)
      (same : ∀ m ∈ l.ids, w.node m = paused.node m)
      (right : r.Converses reply fuel paused current w) (few : waiting.AtMost m)
      (enough : m < fuel) :
    Conjoined reply fuel n l r start (current.append (waiting.bind r.dialogue)) w
  | exhausted {w : World κ σ} (progress : (w.node n).progress = .exhausted)
      (restored : Restored start w) (left : l.Settled w) (right : r.Settled w) :
    Conjoined reply fuel n l r start .ended w

theorem Conjoined.congr (apart : Apart n l r) (h : Conjoined reply fuel n l r start d w)
    (same : (Relation.and n l r).Resembles w w') : Conjoined reply fuel n l r start d w' := by
  have left : Similar l w w' := same.part left_sub_and apart.left
  have right : Similar r w w' := same.part right_sub_and apart.right
  cases h with
  | fresh progress hl hr few enough =>
    exact .fresh (same.progress.trans progress) (hl.congr left) (hr.congr right.node) few enough
  | retrying progress hl nodes hr few enough =>
    exact .retrying (same.progress.trans progress) hl
      (fun m hm => (left.node m hm).trans (nodes m hm)) (hr.congr right) few enough
  | exhausted progress restored hl hr =>
    exact .exhausted (same.progress.trans progress) (restored.trans same.restored)
      (hl.congr left.node same.restored.value) (hr.congr right.node same.restored.value)

/-- A combination is calm when its sides are settled. -/
theorem Calm.of_parts (parts : ∀ s ∈ r.parts, s.Settled w) (rest : r.AtRest w) : r.Calm w := by
  intro s hs
  rcases eq_or_mem_part hs with rfl | ⟨t, ht, hst⟩
  · exact ⟨rest, fun h => absurd rfl h⟩
  · exact ⟨(parts t ht s hst).1, fun _ => (parts t ht s hst).2⟩

theorem Calm.and (left : l.Settled w) (right : r.Settled w) : (Relation.and n l r).Calm w :=
  .of_parts (forall_parts_and left right) trivial

theorem Calm.or (left : l.Settled w) (right : r.Settled w) : (Relation.or n l r).Calm w :=
  .of_parts (forall_parts_or left right) trivial

section Conjunction

variable (apart : Apart n l r)
variable (rightConverses : ∀ {w : World κ σ} {env : Env κ}, r.Ready w → w.Shows env →
  r.Converses reply fuel w (r.dialogue env) w)

include apart

/-- The right side is called under a left answer; when it is exhausted, the loop goes on. -/
theorem Conjoined.retry {k m : Nat} {waiting current : Dialogue κ} {paused : World κ σ}
    (progress : (w.node n).progress = .retrying)
    (left : l.Converses reply fuel start waiting paused)
    (same : ∀ m ∈ l.ids, w.node m = paused.node m)
    (right : r.Converses reply fuel paused current w) (few : waiting.AtMost m) (enough : m < fuel)
    (loop : ∀ w, l.Converses reply fuel start waiting w → r.Ready w →
      Follows reply start (Conjoined reply fuel n l r start)
        (fun w => (Relation.and n l r).Calm w ∧ Conjoined reply fuel n l r start .ended w)
        (waiting.bind r.dialogue) w.client (conjoin n (l.solve reply.call fuel)
          (r.solve reply.call fuel) r.reset k w)) :
    Follows reply start (Conjoined reply fuel n l r start)
      (fun w => (Relation.and n l r).Calm w ∧ Conjoined reply fuel n l r start .ended w)
      (current.append (waiting.bind r.dialogue)) w.client
      (conjoinRight n (l.solve reply.call fuel) (r.solve reply.call fuel) r.reset k w) := by
  have frame {b : Bool} {w₁ : World κ σ} (ran : r.solve reply.call fuel w = .ok b w₁) {m : Nat}
      (hm : m ∉ r.ids) : w₁.node m = w.node m := node_of_solve ran hm
  have waits {b : Bool} {w₁ : World κ σ} (ran : r.solve reply.call fuel w = .ok b w₁) :
      ∀ m ∈ l.ids, w₁.node m = paused.node m := fun m hm =>
    (frame ran (apart.sides m hm)).trans (same m hm)
  refine Follows.bind (f := fun d => d.append (waiting.bind r.dialogue)) (.append _)
    (right.call (.refl r w)) ?_ ?_
  · intro env rest w₁ ran shows next _
    exact .found rfl shows (.retrying
      ((congrArg Node.progress (frame ran apart.right)).trans progress) left (waits ran) next few
      enough)
  · rintro w₁ ran restored ⟨settled, -⟩
    obtain ⟨w₂, rewound, ready, restored₂⟩ := settled.reset apart.coherent
    have frame₂ := ((reset_frame r).of_ok rewound).node
    -- To the left side nothing has happened: its nodes are its own, and the variables are restored.
    have again : Similar l paused w₂ := ⟨restored.trans restored₂, fun m hm =>
      (frame₂ m (apart.sides m hm)).trans (waits ran m hm)⟩
    simp only [Bool.false_eq_true, if_false, bind_apply, rewound]
    rw [← (reset_client r).of_ok rewound]
    exact loop w₂ (left.congr again) ready

include rightConverses

/-- The loop of a conjunction holds what is left of the dialogue of the left side, each answer continued
by the right side.  The induction is on the fuel, which exceeds the number of left answers. -/
theorem Conjoined.loop {k m : Nat} {waiting : Dialogue κ}
    (left : l.Converses reply fuel start waiting w) (right : r.Ready w) (few : waiting.AtMost m)
    (enough : m < fuel) (more : m < k) :
    Follows reply start (Conjoined reply fuel n l r start)
      (fun w => (Relation.and n l r).Calm w ∧ Conjoined reply fuel n l r start .ended w)
      (waiting.bind r.dialogue) w.client
      (conjoin n (l.solve reply.call fuel) (r.solve reply.call fuel) r.reset k w) := by
  induction k generalizing w waiting m with
  | zero => omega
  | succ k ih =>
    rw [conjoin_succ]
    have ready {b : Bool} {w₁ : World κ σ} (ran : l.solve reply.call fuel w = .ok b w₁) :
        r.Ready w₁ := right.congr fun m hm => node_of_solve ran fun h => apart.sides m h hm
    refine Follows.bind (.bind r.dialogue) (left.call (.refl l w)) ?_ ?_
    · intro env rest w₁ ran shows next fewer
      have noted := Restored.noted w₁ n .retrying
      have ready' : r.Ready (w₁.noted n .retrying) :=
        (ready ran).congr fun m hm => World.node_noted_of_mem _ _ _ apart.right hm
      have here : l.Converses reply fuel start rest (w₁.noted n .retrying) :=
        next.congr (.of_modifyNode apart.left w₁ _)
      cases fewer m few with
      | answer fewer =>
        exact retry apart (World.progress_noted ..) here (fun _ _ => rfl)
          (rightConverses ready' (shows.of_restored noted)) fewer (Nat.lt_of_succ_lt enough)
          fun w₂ hl hr => ih hl hr fewer (Nat.lt_of_succ_lt enough) (Nat.lt_of_succ_lt_succ more)
    · rintro w₁ ran restored ⟨settled, -⟩
      have settledL : l.Settled (w₁.noted n .exhausted) := settled.congr
        (fun m hm => World.node_noted_of_mem _ _ _ apart.left hm) fun _ => rfl
      have settledR : r.Settled (w₁.noted n .exhausted) := (ready ran).settled.congr
        (fun m hm => World.node_noted_of_mem _ _ _ apart.right hm) fun _ => rfl
      have back := restored.trans (Restored.noted w₁ n .exhausted)
      exact .ended rfl back ⟨.and settledL settledR,
        .exhausted (World.progress_noted ..) back settledL settledR⟩

theorem Conjoined.step (h : Conjoined reply fuel n l r start d w) :
    Follows reply start (Conjoined reply fuel n l r start)
      (fun w => (Relation.and n l r).Calm w ∧ Conjoined reply fuel n l r start .ended w) d w.client
      (advanceAnd fuel n (l.solve reply.call fuel) (r.solve reply.call fuel) r.reset w) := by
  cases h with
  | fresh progress left right few enough =>
    rw [advanceAnd_of_fresh progress]
    exact loop apart rightConverses left right few enough enough
  | retrying progress left same right few enough =>
    rw [advanceAnd_of_retrying progress]
    exact retry apart progress left same right few enough
      fun w hl hr => loop apart rightConverses hl hr few enough enough
  | exhausted progress restored left right =>
    rw [advanceAnd_of_exhausted progress]
    exact .ended rfl restored ⟨.and left right, .exhausted progress restored left right⟩

end Conjunction

/-! ## Disjunctions -/

/-- The invariant of a disjunction.  On the left, the nodes that only the right side has are ready; on
the right, the nodes that only the left side has. -/
inductive Disjoined (reply : Replies κ σ) (fuel n : Nat) (l r : Relation κ) (start : World κ σ)
    (env : Env κ) : Dialogue κ → World κ σ → Prop
  | left {w : World κ σ} {waiting : Dialogue κ}
      (progress : (w.node n).progress = .fresh ∨ (w.node n).progress = .inLeft)
      (left : l.Converses reply fuel start waiting w)
      (right : ∀ m ∈ r.ids, m ∉ l.ids →
        (w.node m).progress = .fresh ∧ (w.node m).busy = false) :
    Disjoined reply fuel n l r start env (waiting.append (r.dialogue env)) w
  | right {w began : World κ σ} {current : Dialogue κ}
      (progress : (w.node n).progress = .inRight) (restored : Restored start began)
      (right : r.Converses reply fuel began current w)
      (left : ∀ m ∈ l.ids, m ∉ r.ids →
        (w.node m).progress = .fresh ∧ (w.node m).busy = false) :
    Disjoined reply fuel n l r start env current w
  | exhausted {w : World κ σ} (progress : (w.node n).progress = .exhausted)
      (restored : Restored start w) (left : l.Settled w) (right : r.Settled w) :
    Disjoined reply fuel n l r start env .ended w

theorem Disjoined.congr (coherent : (Relation.or n l r).Coherent)
    (h : Disjoined reply fuel n l r start env d w) (same : (Relation.or n l r).Resembles w w') :
    Disjoined reply fuel n l r start env d w' := by
  have left : Similar l w w' := same.part left_sub_or (coherent.node_not_mem left_part_or)
  have right : Similar r w w' := same.part right_sub_or (coherent.node_not_mem right_part_or)
  cases h with
  | left progress hl hr =>
    refine .left ?_ (hl.congr left) fun m hm hne => by rw [right.node m hm]; exact hr m hm hne
    rw [show (w'.node n).progress = (w.node n).progress from same.progress]
    exact progress
  | right progress restored hr hl =>
    exact .right (same.progress.trans progress) restored (hr.congr right)
      fun m hm hne => by rw [left.node m hm]; exact hl m hm hne
  | exhausted progress restored hl hr =>
    exact .exhausted (same.progress.trans progress) (restored.trans same.restored)
      (hl.congr left.node same.restored.value) (hr.congr right.node same.restored.value)

section Disjunction

variable (coherent : (Relation.or n l r).Coherent)
include coherent

theorem Disjoined.searchRight {began : World κ σ} {current : Dialogue κ}
    (progress : (w.node n).progress = .inRight) (restored : Restored start began)
    (right : r.Converses reply fuel began current w)
    (left : ∀ m ∈ l.ids, m ∉ r.ids → (w.node m).progress = .fresh ∧ (w.node m).busy = false) :
    Follows reply start (Disjoined reply fuel n l r start env)
      (fun w => (Relation.or n l r).Calm w ∧ Disjoined reply fuel n l r start env .ended w)
      current w.client (disjoinRight n (r.solve reply.call fuel) w) := by
  have outL : n ∉ l.ids := coherent.node_not_mem left_part_or
  have outR : n ∉ r.ids := coherent.node_not_mem right_part_or
  have unused {b : Bool} {w₁ : World κ σ} (ran : r.solve reply.call fuel w = .ok b w₁) :
      ∀ m ∈ l.ids, m ∉ r.ids → (w₁.node m).progress = .fresh ∧ (w₁.node m).busy = false := by
    intro m hm hne
    rw [node_of_solve ran hne]
    exact left m hm hne
  refine Follows.bind .id (right.call (.refl r w)) ?_ ?_
  · intro env' rest w₁ ran shows next _
    exact .found rfl shows (.right
      ((congrArg Node.progress (node_of_solve ran outR)).trans progress) restored next (unused ran))
  · rintro w₁ ran restored₁ ⟨settled, -⟩
    have settledL := Settled.of_shared coherent left_sub_or right_sub_or settled (unused ran)
    have settledL' : l.Settled (w₁.noted n .exhausted) := settledL.congr
      (fun m hm => World.node_noted_of_mem _ _ _ outL hm) fun _ => rfl
    have settledR' : r.Settled (w₁.noted n .exhausted) := settled.congr
      (fun m hm => World.node_noted_of_mem _ _ _ outR hm) fun _ => rfl
    have back := (restored.trans restored₁).trans (Restored.noted w₁ n .exhausted)
    exact .ended rfl back ⟨.or settledL' settledR',
      .exhausted (World.progress_noted ..) back settledL' settledR'⟩

theorem Disjoined.searchLeft
    (rightConverses : ∀ {w : World κ σ} {env : Env κ}, r.Ready w → w.Shows env →
      r.Converses reply fuel w (r.dialogue env) w)
    (initial : start.Shows env) {waiting : Dialogue κ}
    (left : l.Converses reply fuel start waiting w)
    (right : ∀ m ∈ r.ids, m ∉ l.ids → (w.node m).progress = .fresh ∧ (w.node m).busy = false) :
    Follows reply start (Disjoined reply fuel n l r start env)
      (fun w => (Relation.or n l r).Calm w ∧ Disjoined reply fuel n l r start env .ended w)
      (waiting.append (r.dialogue env)) w.client
      (disjoinLeft n (l.solve reply.call fuel) (r.solve reply.call fuel) l.reset w) := by
  have outL : n ∉ l.ids := coherent.node_not_mem left_part_or
  have outR : n ∉ r.ids := coherent.node_not_mem right_part_or
  have unused {b : Bool} {w₁ : World κ σ} (ran : l.solve reply.call fuel w = .ok b w₁) :
      ∀ m ∈ r.ids, m ∉ l.ids → (w₁.node m).progress = .fresh ∧ (w₁.node m).busy = false := by
    intro m hm hne
    rw [node_of_solve ran hne]
    exact right m hm hne
  refine Follows.bind (f := fun d => d.append (r.dialogue env)) (.append _)
    (left.call (.refl l w)) ?_ ?_
  · intro env' rest w₁ ran shows next _
    simp only [if_true, bind_apply, setProgress_apply, pure_apply]
    refine .found rfl (shows.of_restored (.noted w₁ n .inLeft)) (.left (.inr ?_) ?_ ?_)
    · exact World.progress_noted ..
    · exact next.congr (.of_modifyNode outL w₁ _)
    · intro m hm hne
      rw [World.node_noted_of_mem _ _ _ outR hm]
      exact unused ran m hm hne
  · rintro w₁ ran restored ⟨settled, -⟩
    obtain ⟨w₂, rewound, ready, restored₂⟩ := settled.reset (coherent.mono left_sub_or)
    have frame₂ := ((reset_frame l).of_ok rewound).node
    have back := (restored.trans restored₂).trans (Restored.noted w₂ n .inRight)
    have readyL : l.Ready (w₂.noted n .inRight) := ready.congr fun m hm =>
      World.node_noted_of_mem _ _ _ outL hm
    -- A node of the right side was either reset with the left side or never used.
    have readyR : r.Ready (w₂.noted n .inRight) := by
      intro m hm
      by_cases shared : m ∈ l.ids
      · exact readyL m shared
      · rw [World.node_noted_of_mem _ _ _ outR hm, frame₂ m shared]
        exact unused ran m hm shared
    simp only [Bool.false_eq_true, if_false, bind_apply, rewound, setProgress_apply]
    rw [← (reset_client l).of_ok rewound]
    exact searchRight coherent (World.progress_noted ..) back
      (rightConverses readyR (initial.of_restored back)) fun m hm _ => readyL m hm

theorem Disjoined.step
    (rightConverses : ∀ {w : World κ σ} {env : Env κ}, r.Ready w → w.Shows env →
      r.Converses reply fuel w (r.dialogue env) w)
    (initial : start.Shows env) (h : Disjoined reply fuel n l r start env d w) :
    Follows reply start (Disjoined reply fuel n l r start env)
      (fun w => (Relation.or n l r).Calm w ∧ Disjoined reply fuel n l r start env .ended w)
      d w.client
      (advanceOr n (l.solve reply.call fuel) (r.solve reply.call fuel) l.reset w) := by
  cases h with
  | left progress left right =>
    rw [advanceOr_of_left progress]
    exact searchLeft coherent rightConverses initial left right
  | right progress restored right left =>
    rw [advanceOr_of_inRight progress]
    exact searchRight coherent progress restored right left
  | exhausted progress restored left right =>
    rw [advanceOr_of_exhausted progress]
    exact .ended rfl restored ⟨.or left right, .exhausted progress restored left right⟩

end Disjunction

/-! ## All relations -/

/-- **A ready relation has its dialogue to hold.** -/
theorem Converses.of_ready (coherent : r.Coherent) (separated : r.Separated)
    (enough : r.weight < fuel) (ready : r.Ready w) (shows : w.Shows env) :
    r.Converses reply fuel w (r.dialogue env) w := by
  induction r generalizing w env with
  | and n a b iha ihb =>
    have ha : a ∈ (Relation.and n a b).subs := left_sub_and
    have hb : b ∈ (Relation.and n a b).subs := right_sub_and
    have apart := Apart.of_separated coherent separated
    have lessA : a.weight < fuel := Nat.lt_of_le_of_lt (weight_le_of_mem_subs ha) enough
    have lessB : b.weight < fuel := Nat.lt_of_le_of_lt (weight_le_of_mem_subs hb) enough
    obtain ⟨fresh, idle⟩ := ready n (node_mem_ids (.and n a b))
    refine .of_search (Q := Conjoined reply fuel n a b w) rfl (fun _ _ _ h => h.congr apart)
      (fun _ _ => Conjoined.step apart fun ready shows =>
        ihb (coherent.mono hb) separated.2.2 lessB ready shows) idle ?_
    exact .fresh fresh (iha (coherent.mono ha) separated.2.1 lessA (ready.mono ha) shows)
      (ready.mono hb) (atMost_dialogue a env) lessA
  | or n a b iha ihb =>
    have ha : a ∈ (Relation.or n a b).subs := left_sub_or
    have hb : b ∈ (Relation.or n a b).subs := right_sub_or
    have lessA : a.weight < fuel := Nat.lt_of_le_of_lt (weight_le_of_mem_subs ha) enough
    have lessB : b.weight < fuel := Nat.lt_of_le_of_lt (weight_le_of_mem_subs hb) enough
    obtain ⟨fresh, idle⟩ := ready n (node_mem_ids (.or n a b))
    refine .of_search (Q := Disjoined reply fuel n a b w env) rfl (fun _ _ _ h => h.congr coherent)
      (fun _ _ => Disjoined.step coherent (fun ready shows =>
        ihb (coherent.mono hb) separated.2 lessB ready shows) shows) idle ?_
    exact .left (.inl fresh) (iha (coherent.mono ha) separated.1 lessA (ready.mono ha) shows)
      fun m hm _ => ready.mono hb m hm
  | domain | convert | compare | predicate | always | never => exact .of_isLeaf rfl ready shows

section Function

variable {r : Relation Function} {start w : World Function σ} {env : Env Function}
variable {answers : Answers (Env Function)}

/-- **A ready relation resumes with its answers.** -/
theorem Resumes.of_ready (coherent : r.Coherent) (separated : r.Separated)
    (enough : r.weight < fuel) (ready : r.Ready w) (shows : w.Shows env) :
    r.Resumes fuel w (r.answers env) w :=
  .of_converses (.of_ready coherent separated enough ready shows)

/-- So many further calls all answer `false`.  After each the variables show what they showed in
`start`, and a call of `reset` would make the relation ready for another search. -/
def StaysExhausted (fuel : Nat) (r : Relation Function) (start : World Function σ) :
    Nat → World Function σ → Prop
  | 0, _ => True
  | k + 1, w => ∃ w', r.solve Function.call fuel w = .ok false w' ∧ Restored start w' ∧
      (∃ w'', (r.reset : Act Function σ Unit) w' = .ok ⟨⟩ w'' ∧ r.Ready w'' ∧ Restored start w'') ∧
      StaysExhausted fuel r start k w'

/-- One call of `solve` after the other brings one of the environments after the other; the call after
the last one brings the interrupt, or `false` for good. -/
def Yields (fuel : Nat) (r : Relation Function) (start : World Function σ)
    (interrupt : Option Interrupt) : List (Env Function) → World Function σ → Prop
  | env :: found, w => ∃ w', r.solve Function.call fuel w = .ok true w' ∧ w'.Shows env ∧
      Yields fuel r start interrupt found w'
  | [], w =>
    match interrupt with
    | some why => ∃ w', r.solve Function.call fuel w = .error why w'
    | none => ∀ k, StaysExhausted fuel r start k w

theorem Resumes.staysExhausted (coherent : r.Coherent) (h : r.Resumes fuel start .none w)
    (k : Nat) : StaysExhausted fuel r start k w := by
  induction k generalizing w with
  | zero => trivial
  | succ k ih =>
    obtain ⟨w₁, ran, restored, settled, later⟩ := h.ends
    obtain ⟨w₂, rewound, ready, restored₂⟩ := settled.reset coherent
    exact ⟨w₁, ran, restored, ⟨w₂, rewound, ready, restored.trans restored₂⟩, ih later⟩

theorem Resumes.yields (coherent : r.Coherent) (h : r.Resumes fuel start answers w) :
    Yields fuel r start answers.interrupt answers.found w := by
  rcases answers with ⟨found, interrupt⟩
  induction found generalizing w with
  | nil =>
    cases interrupt with
    | none => exact h.staysExhausted coherent
    | some why => exact h.breaks
  | cons env found ih =>
    obtain ⟨w₁, ran, shows, later⟩ := h.next
    exact ⟨w₁, ran, shows, ih later⟩

/-- **The search is depth-first search.**  In a world that shows an environment, the calls of `solve` on
a ready relation bring the answers of its meaning there one after the other, and then its interrupt, or
`false` for good with everything restored, if all comparisons are of two variables, those of the
relation and those that are pending.  More fuel than the relation weighs is enough. -/
theorem solve_yields_meaning (coherent : r.Coherent) (separated : r.Separated)
    (two : r.ComparesTwo) (distinct : env.Distinct) (enough : r.weight < fuel) (ready : r.Ready w)
    (shows : w.Shows env) :
    r.Yields fuel w (r.meaning env).interrupt (r.meaning env).found w :=
  answers_eq_meaning two distinct ▸
    (Resumes.of_ready coherent separated enough ready shows).yields coherent

/-- Two equal bits: the comparison is left to its operands, and of the four pairs two pass. -/
theorem solve_yields_meaning_equal_bits :
    let x : Var := ⟨0, "X"⟩
    let y : Var := ⟨1, "Y"⟩
    let bits : List Value := [.bool false, .bool true]
    let r : Relation Function :=
      .and 0 (.compare 1 x y .equality) (.and 2 (.domain 3 x bits) (.domain 4 y bits))
    let env : Env Function := { value := fun _ => none, pending := [] }
    let w : World Function Unit := { client := () }
    (r.meaning env).found.length = 2 ∧
      r.Yields 32 w (r.meaning env).interrupt (r.meaning env).found w := by
  intro x y bits r env w
  have two : r.ComparesTwo := by
    intro n u v c hm
    simp only [r, subs, List.mem_cons, List.mem_append, List.not_mem_nil, reduceCtorEq, or_false,
      false_or, compare.injEq] at hm
    obtain ⟨-, rfl, rfl, -⟩ := hm
    decide
  refine ⟨by decide +kernel, solve_yields_meaning (.of_nodup (by decide))
    ⟨by decide, trivial, by decide, trivial, trivial⟩ two (fun q hq => ?_) (by decide) (.blank _ _)
    (.blank _)⟩
  exact absurd hq List.not_mem_nil

/-- A conjunction whose two sides are one node: the right side takes the next value of the left one. -/
theorem shared_side_takes_the_next_value (fuel : Nat) :
    let x : Var := ⟨0, "X"⟩
    let d : Relation Function := .domain 0 x [.bool false, .bool true]
    let w : World Function Unit := { client := () }
    ∃ w', (Relation.and 1 d d).solve Function.call (fuel + 1) w = .ok true w' ∧
      w'.value x = some (.bool true) :=
  ⟨_, rfl, rfl⟩

/-- The first answer of the meaning is then passed over. -/
theorem shared_side_passes_over_an_answer :
    let x : Var := ⟨0, "X"⟩
    let d : Relation Function := .domain 0 x [.bool false, .bool true]
    let env : Env Function := { value := fun _ => none, pending := [] }
    let w : World Function Unit := { client := () }
    let meaning := (Relation.and 1 d d).meaning env
    ¬ ∃ fuel, (Relation.and 1 d d).Yields (fuel + 1) w meaning.interrupt meaning.found w := by
  rintro x d env w meaning ⟨fuel, w', ran, shows, -⟩
  obtain ⟨w₁, took, held⟩ := shared_side_takes_the_next_value fuel
  have same : w₁ = w' := (EStateM.Result.ok.inj (took.symm.trans ran)).2
  have first : w'.value x = some (.bool false) := shows.value x
  rw [same] at held
  exact nomatch held.symm.trans first

end Function

end Relation
end RelationSearch
