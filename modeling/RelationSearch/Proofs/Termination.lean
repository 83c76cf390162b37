import RelationSearch.Proofs.Divergence
import RelationSearch.Proofs.Spending

/-! # Every call returns

A call on a separated graph takes at least one answer off those that are left if it answers `true`, and
with more fuel than the graph weighs it does not run out (`Relation.solve_spends`).  The loop of a
conjunction is what needs the backlog: each turn takes an answer from the left side, and searching and
resetting the right side gives it none back, since the two have no node in common.

So every call returns, wherever the calls before it have left the graph, and repeated calls come to an end
(`Relation.solve_returns`).  If the sides of a conjunction share a node, or if callbacks change nodes or
variables, neither is true (`Relation.endless_searches`).
-/
namespace RelationSearch

open Act RelationSearch.Relation

variable {κ σ α β : Type} {call : Caller κ σ} {fuel fuel' n : Nat} {root r s l p : Relation κ} {x : Var}
variable {w w' : World κ σ}

/-! ## Combinations -/

/-- Every node of the combination pauses at a proper place, and nobody is driving its sides. -/
structure InOrder (p l r : Relation κ) (w : World κ σ) : Prop where
  poised : p.Poised w
  left : l.Idle w
  right : r.Idle w

namespace InOrder

theorem solve (quiet : call.Quiet) (coherent : p.Coherent) (hs : s ∈ p.subs)
    (h : InOrder p l r w) {answer : Bool} (ran : s.solve call fuel w = .ok answer w') :
    InOrder p l r w' := by
  have frame := (solve_frame quiet.sparesNodes s).of_ok ran
  refine ⟨?_, h.left.within frame, h.right.within frame⟩
  exact final_of_ok ran ▸ h.poised.solve quiet coherent hs

theorem reset (coherent : p.Coherent) (hs : s ∈ p.subs)
    (h : InOrder p l r w) (ran : (s.reset : Act κ σ Unit) w = .ok ⟨⟩ w') : InOrder p l r w' := by
  have frame := (reset_frame s).of_ok ran
  refine ⟨?_, h.left.within frame, h.right.within frame⟩
  exact final_of_ok ran ▸ h.poised.reset coherent hs

theorem noted (coherent : p.Coherent) (h : InOrder p l r w) {q : Progress} (proper : p.Proper q) :
    InOrder p l r (w.noted p.node q) := by
  have frame : Within p w (w.noted p.node q) := .modifyNode (node_mem_ids p) w fun _ => rfl
  refine ⟨fun s hs => ?_, h.left.within frame, h.right.within frame⟩
  by_cases e : p.node = s.node
  · obtain rfl := coherent p (mem_subs_self p) s hs e
    rw [World.progress_noted]
    exact proper
  · rw [World.node_noted_of_ne _ _ _ e]
    exact h.poised s hs

theorem setBusy (h : InOrder p l r w) (left : n ∉ l.ids) (right : n ∉ r.ids) (busy : Bool) :
    InOrder p l r (w.setBusy n busy) :=
  ⟨h.poised.congr fun _ _ => World.progress_setBusy .., h.left.setBusy left busy,
    h.right.setBusy right busy⟩

end InOrder

section Conjunction

variable (quiet : call.Quiet) (coherent : (Relation.and n l r).Coherent) (apart : Apart n l r)
include quiet coherent apart

/-- The right side is called under a left answer; when it is exhausted and reset, the left side has no
more answers left than it had when what the right side owned was hidden. -/
theorem retry_spends {k bound : Nat} (progress : (w.node n).progress = .retrying)
    (order : InOrder (.and n l r) l r w)
    (right : Spends call (r.remaining w) r (r.solve call fuel w))
    (enough : (Relation.and n l r).remaining w ≤ bound)
    (loop : ∀ w', InOrder (.and n l r) l r w' →
      l.remaining w' ≤ l.remainingBeside r w →
      Spends call bound (.and n l r)
        (conjoin n (l.solve call fuel) (r.solve call fuel) r.reset k w')) :
    Spends call bound (.and n l r)
      (conjoinRight n (l.solve call fuel) (r.solve call fuel) r.reset k w) := by
  have hr : r ∈ (Relation.and n l r).subs := right_sub_and
  rw [conjoinRight, bind_apply]
  cases ran : r.solve call fuel w with
  | error why w₁ => exact .interrupted (right.raised why w₁ ran)
  | ok answer w₁ =>
    have frame := (solve_frame quiet.sparesNodes r).of_ok ran
    have order₁ := order.solve quiet coherent hr ran
    have poised := order.poised.mono hr
    have trail : Trail r w w₁ :=
      final_of_ok ran ▸ poised.trail_solve quiet apart.coherent (mem_subs_self r)
    have left : l.remainingBeside r w₁ ≤ l.remainingBeside r w :=
      remainingBeside_le trail fun m hm => frame.node m (apart.sides m hm)
    cases answer with
    | true =>
      have fewer := right.fewer w₁ ran
      have here : (w₁.node n).progress = .retrying := by rw [frame.node n apart.right, progress]
      have product := Nat.mul_le_mul_right r.weight left
      rw [remaining_retrying progress] at enough
      refine .found ?_
      rw [remaining_retrying here]
      omega
    | false =>
      obtain ⟨w₂, rewound, ready⟩ := reset_ready apart.coherent order₁.right
      simp only [Bool.false_eq_true, if_false, bind_apply, rewound]
      have frame₂ := (reset_frame r).of_ok rewound
      have trail₂ : Trail r w₁ w₂ :=
        final_of_ok rewound ▸ (order₁.poised.mono hr).trail_reset apart.coherent (mem_subs_self r)
      have back : l.remaining w₂ ≤ l.remainingBeside r w₁ :=
        remaining_le_beside trail₂ ready fun m hm => frame₂.node m (apart.sides m hm)
      exact loop w₂ (order₁.reset coherent hr rewound) (by omega)

variable (leftSpends : ∀ {w : World κ σ}, l.Poised w → l.Idle w →
  Spends call (l.remaining w) l (l.solve call fuel w))
variable (rightSpends : ∀ {w : World κ σ}, r.Poised w → r.Idle w →
  Spends call (r.remaining w) r (r.solve call fuel w))
include leftSpends rightSpends

/-- Each turn of the loop takes an answer from the left side.  The induction is on the fuel, which exceeds
the number of left answers. -/
theorem conjoin_spends {k : Nat} (order : InOrder (.and n l r) l r w)
    (enough : l.remaining w < k) :
    Spends call (l.remaining w * r.weight) (.and n l r)
      (conjoin n (l.solve call fuel) (r.solve call fuel) r.reset k w) := by
  induction k generalizing w with
  | zero => omega
  | succ k ih =>
    have hl : l ∈ (Relation.and n l r).subs := left_sub_and
    have hr : r ∈ (Relation.and n l r).subs := right_sub_and
    have first := leftSpends (order.poised.mono hl) order.left
    rw [conjoin_succ, bind_apply]
    cases ran : l.solve call fuel w with
    | error why w₁ => exact .interrupted (first.raised why w₁ ran)
    | ok answer w₁ =>
      cases answer with
      | false => exact .ended
      | true =>
        have fewer := first.fewer w₁ ran
        have order₁ : InOrder (.and n l r) l r (w₁.noted n .retrying) :=
          (order.solve quiet coherent hl ran).noted coherent trivial
        have same : l.remaining (w₁.noted n .retrying) = l.remaining w₁ :=
          remaining_congr (fun _ => rfl) fun m hm => by
            rw [World.node_noted_of_mem _ _ _ apart.left hm]
        have covered : l.remainingBeside r (w₁.noted n .retrying) ≤ l.remaining w₁ :=
          same ▸ remainingBeside_le_remaining
        have light := remaining_le_weight (order₁.poised.mono hr)
        -- One left answer is worth as many answers as the right side weighs.
        have worth : (l.remaining w₁ + 1) * r.weight ≤ l.remaining w * r.weight :=
          Nat.mul_le_mul_right _ fewer
        have total : (Relation.and n l r).remaining (w₁.noted n .retrying) ≤
            l.remaining w * r.weight := by
          have product := Nat.mul_le_mul_right r.weight covered
          rw [Nat.add_mul] at worth
          rw [remaining_retrying (World.progress_noted ..)]
          omega
        simp only [if_true, bind_apply, setProgress_apply]
        refine retry_spends quiet coherent apart (World.progress_noted ..) order₁
          (rightSpends (order₁.poised.mono hr) order₁.right) total fun w₂ order₂ fewer₂ => ?_
        have left : l.remaining w₂ ≤ l.remaining w := by omega
        exact (ih order₂ (by omega)).mono (Nat.mul_le_mul_right _ left)

theorem advanceAnd_spends (order : InOrder (.and n l r) l r w) (enough : l.weight < fuel) :
    Spends call ((Relation.and n l r).remaining w) (.and n l r)
      (advanceAnd fuel n (l.solve call fuel) (r.solve call fuel) r.reset w) := by
  have hl : l ∈ (Relation.and n l r).subs := left_sub_and
  have hr : r ∈ (Relation.and n l r).subs := right_sub_and
  have light {w : World κ σ} (order : InOrder (.and n l r) l r w) : l.remaining w < fuel := by
    have := remaining_le_weight (order.poised.mono hl)
    omega
  have loop := conjoin_spends quiet coherent apart leftSpends rightSpends order (light order)
  cases progress : (w.node n).progress with
  | exhausted =>
    rw [advanceAnd_of_exhausted progress]
    exact .ended
  | retrying =>
    rw [advanceAnd_of_retrying progress]
    refine retry_spends quiet coherent apart progress order
      (rightSpends (order.poised.mono hr) order.right) (Nat.le_refl _) fun w' order' fewer => ?_
    refine (conjoin_spends quiet coherent apart leftSpends rightSpends order' (light order')).mono ?_
    have product := Nat.mul_le_mul_right r.weight fewer
    rw [remaining_retrying progress]
    omega
  | _ =>
    rw [advanceAnd_of_ne (by simp [progress]) (by simp [progress])]
    refine loop.mono (Nat.le_of_eq ?_)
    simp only [remaining, backlog, progress]

end Conjunction

section Disjunction

variable (quiet : call.Quiet) (coherent : (Relation.or n l r).Coherent)
include quiet coherent

theorem disjoinRight_spends {bound : Nat} (progress : (w.node n).progress = .inRight)
    (right : Spends call (r.remaining w) r (r.solve call fuel w)) (enough : r.remaining w ≤ bound) :
    Spends call bound (.or n l r) (disjoinRight n (r.solve call fuel) w) := by
  rw [disjoinRight, bind_apply]
  cases ran : r.solve call fuel w with
  | error why w₁ => exact .interrupted (right.raised why w₁ ran)
  | ok answer w₁ =>
    cases answer with
    | false => exact .ended
    | true =>
      have fewer := right.fewer w₁ ran
      have outside := coherent.node_not_mem right_part_or
      have here : (w₁.node n).progress = .inRight := by
        rw [((solve_frame quiet.sparesNodes r).of_ok ran).node n outside, progress]
      refine .found ?_
      rw [remaining_inRight here]
      omega

variable (leftSpends : ∀ {w : World κ σ}, l.Poised w → l.Idle w →
  Spends call (l.remaining w) l (l.solve call fuel w))
variable (rightSpends : ∀ {w : World κ σ}, r.Poised w → r.Idle w →
  Spends call (r.remaining w) r (r.solve call fuel w))
include leftSpends rightSpends

/-- The sides may have nodes in common: the right side is worth its weight, whatever the left side has
done to it. -/
theorem disjoinLeft_spends (order : InOrder (.or n l r) l r w) :
    Spends call (l.remaining w + r.weight) (.or n l r)
      (disjoinLeft n (l.solve call fuel) (r.solve call fuel) l.reset w) := by
  have hl : l ∈ (Relation.or n l r).subs := left_sub_or
  have hr : r ∈ (Relation.or n l r).subs := right_sub_or
  have left := leftSpends (order.poised.mono hl) order.left
  rw [disjoinLeft, bind_apply]
  cases ran : l.solve call fuel w with
  | error why w₁ => exact .interrupted (left.raised why w₁ ran)
  | ok answer w₁ =>
    have order₁ := order.solve quiet coherent hl ran
    cases answer with
    | true =>
      have fewer := left.fewer w₁ ran
      have outside : n ∉ l.ids := coherent.node_not_mem left_part_or
      have same : l.remaining (w₁.noted n .inLeft) = l.remaining w₁ :=
        remaining_congr (fun _ => rfl) fun m hm => by
          rw [World.node_noted_of_mem _ _ _ outside hm]
      refine .found (?_ : (Relation.or n l r).remaining (w₁.noted n .inLeft) < _)
      rw [remaining_inLeft (World.progress_noted ..)]
      omega
    | false =>
      -- The reset may reach into the right side, which is then worth at most its weight.
      obtain ⟨w₂, rewound, -⟩ := reset_ready (coherent.mono hl) order₁.left
      have order₂ : InOrder (.or n l r) l r (w₂.noted n .inRight) :=
        (order₁.reset coherent hl rewound).noted coherent trivial
      have light := remaining_le_weight (order₂.poised.mono hr)
      simp only [Bool.false_eq_true, if_false, bind_apply, rewound, setProgress_apply]
      exact disjoinRight_spends quiet coherent (World.progress_noted ..)
        (rightSpends (order₂.poised.mono hr) order₂.right) (by omega)

theorem advanceOr_spends (order : InOrder (.or n l r) l r w) :
    Spends call ((Relation.or n l r).remaining w) (.or n l r)
      (advanceOr n (l.solve call fuel) (r.solve call fuel) l.reset w) := by
  have searchLeft := disjoinLeft_spends quiet coherent leftSpends rightSpends order
  cases progress : (w.node n).progress with
  | exhausted =>
    rw [advanceOr_of_exhausted progress]
    exact .ended
  | inRight =>
    rw [advanceOr_of_inRight progress]
    exact disjoinRight_spends quiet coherent progress
      (rightSpends (order.poised.mono right_sub_or) order.right)
      (Nat.le_of_eq (remaining_inRight progress).symm)
  | _ =>
    rw [advanceOr_of_ne (by simp [progress]) (by simp [progress])]
    refine searchLeft.mono (Nat.le_of_eq ?_)
    simp only [remaining, backlog, progress]

end Disjunction

namespace Relation

/-- **Every answer is paid for**: a call that answers takes an answer off those that are left, and with
more fuel than the relation weighs, no call runs out of it. -/
theorem solve_spends (quiet : call.Quiet) (coherent : r.Coherent)
    (separated : r.Separated) (enough : r.weight < fuel) (poised : r.Poised w) (idle : r.Idle w) :
    Spends call (r.remaining w) r (r.solve call fuel w) := by
  induction r generalizing w with
  | and n l r ihl ihr =>
    have hl : l ∈ (Relation.and n l r).subs := left_sub_and
    have hr : r ∈ (Relation.and n l r).subs := right_sub_and
    have apart := Apart.of_separated coherent separated
    have lightL : l.weight < fuel := Nat.lt_of_le_of_lt (weight_le_of_mem_subs hl) enough
    have lightR : r.weight < fuel := Nat.lt_of_le_of_lt (weight_le_of_mem_subs hr) enough
    have order : InOrder (.and n l r) l r w := ⟨poised, idle.mono hl, idle.mono hr⟩
    have busy := order.setBusy apart.left apart.right true
    have same : (Relation.and n l r).remaining (w.setBusy n true) ≤ (Relation.and n l r).remaining w :=
      Nat.le_of_eq (remaining_congr (fun _ => rfl) fun _ _ => World.progress_setBusy ..)
    refine .answering (idle n (node_mem_ids _)) (.mono ?_ same)
    exact advanceAnd_spends quiet coherent apart
      (ihl (coherent.mono hl) separated.2.1 lightL) (ihr (coherent.mono hr) separated.2.2 lightR)
      busy lightL
  | or n l r ihl ihr =>
    have hl : l ∈ (Relation.or n l r).subs := left_sub_or
    have hr : r ∈ (Relation.or n l r).subs := right_sub_or
    have lightL : l.weight < fuel := Nat.lt_of_le_of_lt (weight_le_of_mem_subs hl) enough
    have lightR : r.weight < fuel := Nat.lt_of_le_of_lt (weight_le_of_mem_subs hr) enough
    have order : InOrder (.or n l r) l r w := ⟨poised, idle.mono hl, idle.mono hr⟩
    have busy := order.setBusy (coherent.node_not_mem left_part_or)
      (coherent.node_not_mem right_part_or) true
    have same : (Relation.or n l r).remaining (w.setBusy n true) ≤ (Relation.or n l r).remaining w :=
      Nat.le_of_eq (remaining_congr (fun _ => rfl) fun _ _ => World.progress_setBusy ..)
    refine .answering (idle n (node_mem_ids _)) (.mono ?_ same)
    exact advanceOr_spends quiet coherent
      (ihl (coherent.mono hl) separated.1 lightL) (ihr (coherent.mono hr) separated.2 lightR) busy
  | domain | convert | compare | predicate | always | never =>
    exact .of_isLeaf quiet rfl poised (idle _ (node_mem_ids _))

/-! ## Repeated calls -/

/-- Calls `solve` until it answers `false`.  Answers how often it answered `true` before. -/
def exhaust (call : Caller κ σ) (fuel : Nat) (r : Relation κ) : Nat → Act κ σ Nat
  | 0 => throw .outOfFuel
  | calls + 1 => do
    if ← r.solve call fuel then
      let found ← r.exhaust call fuel calls
      return found + 1
    else return 0

theorem exhaust_extends {calls calls' : Nat} (le : fuel ≤ fuel') (more : calls ≤ calls') :
    Extends (r.exhaust call fuel calls) (r.exhaust call fuel' calls') := by
  induction calls generalizing calls' with
  | zero => exact fun w enough => absurd rfl (enough w)
  | succ calls ih =>
    obtain ⟨rest, rfl⟩ := Nat.exists_eq_add_of_le' (Nat.zero_lt_of_lt more)
    refine .ite (solve_extends call le r) ?_ (.refl _)
    exact .bind (ih (Nat.le_of_succ_le_succ more)) fun _ => .refl _

/-- The computation answered as expected, or the caller interrupted it. -/
def Ends (call : Caller κ σ) (expected : α → Prop)
    (result : EStateM.Result Interrupt (World κ σ) α) : Prop :=
  (∃ a w', result = .ok a w' ∧ expected a) ∨ ∃ why w', result = .error why w' ∧ call.Raises why

theorem Ends.mono {expected expected' : α → Prop} {result : EStateM.Result Interrupt (World κ σ) α}
    (h : Ends call expected result) (le : ∀ a, expected a → expected' a) :
    Ends call expected' result :=
  h.imp (fun ⟨a, w', ended, met⟩ => ⟨a, w', ended, le a met⟩) id

theorem Ends.of_spends {bound : Nat} {result : EStateM.Result Interrupt (World κ σ) Bool}
    (h : Spends call bound r result) : Ends call (fun _ => True) result := by
  cases result with
  | ok answer w' => exact .inl ⟨answer, w', rfl, trivial⟩
  | error why w' => exact .inr ⟨why, w', rfl, h.raised why w' rfl⟩

theorem Ends.ne_outOfFuel {expected : α → Prop} {result : EStateM.Result Interrupt (World κ σ) α}
    (h : Ends call expected result) (returns : ¬ call.Raises .outOfFuel) (w' : World κ σ) :
    result ≠ .error .outOfFuel w' := by
  rintro rfl
  obtain ⟨a, w₁, ended, -⟩ | ⟨why, w₁, ended, raised⟩ := h
  · cases ended
  · cases ended
    exact returns raised

/-- Every `true` is paid for, so that there are no more of them than answers left. -/
theorem exhaust_ends (quiet : call.Quiet) (coherent : r.Coherent) (separated : r.Separated)
    (enough : r.weight < fuel) (poised : r.Poised w) (idle : r.Idle w) {calls : Nat}
    (few : r.remaining w < calls) :
    Ends call (· ≤ r.remaining w) (r.exhaust call fuel calls w) := by
  induction calls generalizing w with
  | zero => omega
  | succ calls ih =>
    have paid := solve_spends quiet coherent separated enough poised idle
    rw [exhaust, bind_apply]
    cases ran : r.solve call fuel w with
    | error why w₁ => exact .inr ⟨why, w₁, rfl, paid.raised why w₁ ran⟩
    | ok answer w₁ =>
      cases answer with
      | false => exact .inl ⟨0, w₁, rfl, Nat.zero_le _⟩
      | true =>
        have fewer := paid.fewer w₁ ran
        have poised₁ : r.Poised w₁ := final_of_ok ran ▸ poised.solve quiet coherent (mem_subs_self r)
        have idle₁ := idle.within ((solve_frame quiet.sparesNodes r).of_ok ran)
        simp only [if_true, bind_apply]
        obtain ⟨found, w', ran', le⟩ | ⟨why, w', ran', raised⟩ := ih poised₁ idle₁ (by omega)
        · rw [ran']
          exact .inl ⟨found + 1, w', rfl, by omega⟩
        · rw [ran']
          exact .inr ⟨why, w', rfl, raised⟩

/-! ## Reachable worlds -/

/-- The worlds that calls on the nodes of a graph lead to, beginning when all its nodes are ready.  Between
two calls anything may happen to the variables and to the client's state. -/
inductive Reachable (call : Caller κ σ) (root : Relation κ) : World κ σ → Prop
  | built {w : World κ σ} (ready : root.Ready w) : Reachable call root w
  | solve {w : World κ σ} (run : Reachable call root w) {s : Relation κ} (hs : s ∈ root.subs)
      (fuel : Nat) : Reachable call root ((s.solve call fuel).final w)
  | reset {w : World κ σ} (run : Reachable call root w) {s : Relation κ} (hs : s ∈ root.subs) :
    Reachable call root (s.reset.final w)
  | meanwhile {w w' : World κ σ} (run : Reachable call root w) (nodes : w'.nodes = w.nodes) :
    Reachable call root w'

theorem Reachable.in_order (quiet : call.Quiet) (coherent : root.Coherent)
    (run : Reachable call root w) : root.Poised w ∧ root.Idle w := by
  induction run with
  | built ready => exact ⟨.of_ready ready, ready.idle⟩
  | solve _ hs fuel ih =>
    exact ⟨ih.1.solve quiet coherent hs, ih.2.within (solve_frame quiet.sparesNodes _ _)⟩
  | reset _ hs ih =>
    exact ⟨ih.1.reset coherent hs, ih.2.within (reset_frame _ _)⟩
  | meanwhile _ nodes ih =>
    have node (m : Nat) : World.node _ m = World.node _ m := congrArg (Table.get · m) nodes
    exact ⟨ih.1.congr fun m _ => congrArg Node.progress (node m),
      fun m hm => (congrArg Node.busy (node m)).trans (ih.2 m hm)⟩

/-- **Every call returns**, wherever the graph paused: with more fuel than the graph weighs it comes back,
and always in the same way.  So does calling again and again until the answer is `false`, and there are
at most as many answers before as the graph weighs.  What interrupts a call is a variable that has no
value, or a callback. -/
theorem solve_returns (quiet : call.Quiet) (returns : ¬ call.Raises .outOfFuel)
    (coherent : root.Coherent) (separated : root.Separated) (run : Reachable call root w) :
    (∃ result, Ends call (fun _ => True) result ∧
      ∀ fuel, root.weight < fuel → root.solve call fuel w = result) ∧
    ∃ result, Ends call (· ≤ root.weight) result ∧
      ∀ fuel calls, root.weight < fuel → root.weight < calls →
        root.exhaust call fuel calls w = result := by
  obtain ⟨poised, idle⟩ := run.in_order quiet coherent
  have enough := Nat.lt_succ_self root.weight
  have light := backlog_le_weight poised fun _ => False
  have once : Ends call (fun _ => True) (root.solve call (root.weight + 1) w) :=
    .of_spends (solve_spends quiet coherent separated enough poised idle)
  have often : Ends call (· ≤ root.weight) (root.exhaust call (root.weight + 1) (root.weight + 1) w) :=
    (exhaust_ends quiet coherent separated enough poised idle (Nat.lt_succ_of_le light)).mono
      fun found few => Nat.le_trans few light
  refine ⟨⟨_, once, fun fuel more => ?_⟩, ⟨_, often, fun fuel calls more longer => ?_⟩⟩
  · exact solve_extends call more root w (once.ne_outOfFuel returns)
  · exact exhaust_extends more longer w (often.ne_outOfFuel returns)

theorem shared_alternatives_found :
    let side : Relation Function := .domain 3 ⟨1, "Y"⟩ [.unit]
    let root : Relation Function :=
      .and 0 (.domain 1 ⟨0, "X"⟩ [.bool false, .bool true]) (.or 2 side side)
    let w := (root.solve Function.call 10).final ({ client := () } : World Function Unit)
    ∃ w', root.exhaust Function.call 10 10 w = .ok 3 w' := ⟨_, rfl⟩

/-- A conjunction whose right side offers the same domain twice: after the first answer there are three
more of them, with any fuel from ten on, and any number of calls. -/
theorem shared_alternatives_return :
    let side : Relation Function := .domain 3 ⟨1, "Y"⟩ [.unit]
    let root : Relation Function :=
      .and 0 (.domain 1 ⟨0, "X"⟩ [.bool false, .bool true]) (.or 2 side side)
    let w := (root.solve Function.call 10).final ({ client := () } : World Function Unit)
    ∃ w', ∀ fuel calls, 9 < fuel → 9 < calls →
      root.exhaust Function.call fuel calls w = .ok 3 w' := by
  intro side root w
  have coherent : root.Coherent := by
    intro s hs t ht same
    have all : root.subs = [root, .domain 1 ⟨0, "X"⟩ [.bool false, .bool true],
      .or 2 side side, side, side] := rfl
    simp only [all, List.mem_cons, List.not_mem_nil, or_false] at hs ht
    rcases hs with rfl | rfl | rfl | rfl | rfl <;> rcases ht with rfl | rfl | rfl | rfl | rfl <;>
      first | rfl | exact absurd same (by decide)
  have separated : root.Separated := ⟨by decide, trivial, trivial, trivial⟩
  have run : Reachable Function.call root w := .solve (.built (.blank root ())) (mem_subs_self root) 10
  obtain ⟨-, result, -, same⟩ :=
    solve_returns Function.quiet Function.not_raises_outOfFuel coherent separated run
  obtain ⟨w', ran⟩ := shared_alternatives_found
  refine ⟨w', fun fuel calls more longer => ?_⟩
  exact (same fuel calls more longer).trans ((same 10 10 (by decide) (by decide)).symm.trans ran)

theorem doubled_domain_answers :
    let side : Relation Function := .domain 1 ⟨0, "X"⟩ [.bool false, .bool true]
    ∃ w', (Relation.and 0 side side).solve Function.call 1 ({ client := () } : World Function Unit) =
      .ok true w' ∧ Doubled 0 1 ⟨0, "X"⟩ w' :=
  ⟨_, rfl, ⟨rfl, rfl⟩, rfl, rfl, rfl⟩

/-- **Not every search ends.**  With one domain on both sides of a conjunction every call answers `true`,
and with one relation that holds once on both sides no call returns.  Neither does a call whose
callback resets the left side of a conjunction, or binds the source of a conversion there.  And a
predicate of a variable without a value interrupts every call, so that none answers `false`. -/
theorem endless_searches :
    let x : Var := ⟨0, "X"⟩
    let y : Var := ⟨1, "Y"⟩
    let new : World Function Unit := { client := () }
    (let side : Relation Function := .domain 1 x [.bool false, .bool true]
      ∃ run : Nat → World Function Unit, run 0 = new ∧
        ∀ i, (Relation.and 0 side side).solve Function.call 1 (run i) = .ok true (run (i + 1))) ∧
    (∀ fuel, ∃ w', (Relation.and 0 (.always 1) (.always 1)).solve Function.call fuel new =
      .error .outOfFuel w') ∧
    (let resets : Caller Unit Unit := fun _ _ => do
        (Relation.always 1).reset
        return .bool false
      ∀ fuel, ∃ w', (Relation.and 0 (.always 1) (.predicate 2 [] ())).solve resets fuel
        { client := () } = .error .outOfFuel w') ∧
    (let rebinds : Caller Bool Unit := fun test _ => do
        if test then
          modify (·.modifyCell x (·.put .unit))
          return .bool false
        else return .unit
      let bound : World Bool Unit :=
        (({ client := () } : World Bool Unit).modifyCell x (·.put .unit)).modifyCell y (·.put .unit)
      ∀ fuel, ∃ w', (Relation.and 0 (.convert 1 x y false) (.predicate 2 [] true)).solve rebinds fuel
        bound = .error .outOfFuel w') ∧
    let test : Relation Function := .predicate 0 [x] (.ofTest fun _ => true)
    ∃ run : Nat → World Function Unit, run 0 = new ∧
      ∀ i, test.solve Function.call 1 (run i) = .error (.unbound "X" test.bareImage) (run (i + 1)) := by
  refine ⟨?_, fun fuel => ?_, fun fuel => ?_, fun fuel => ?_, ?_⟩
  · have step (w : World Function Unit) (h : w = { client := () } ∨ Doubled 0 1 ⟨0, "X"⟩ w) :
        ∃ w', (Relation.and 0 (.domain 1 ⟨0, "X"⟩ [.bool false, .bool true])
          (.domain 1 ⟨0, "X"⟩ [.bool false, .bool true])).solve Function.call 1 w = .ok true w' ∧
          (w' = { client := () } ∨ Doubled 0 1 ⟨0, "X"⟩ w') := by
      obtain rfl | h := h
      · obtain ⟨w', ran, doubled⟩ := doubled_domain_answers
        exact ⟨w', ran, .inr doubled⟩
      · obtain ⟨w', ran, doubled⟩ := h.answers Function.call 0 (by decide)
        exact ⟨w', ran, .inr doubled⟩
    exact Act.forever step (.inl rfl)
  · refine and_runs_out (fun fuel => turnsBack_always _ fuel (by decide)) rfl rfl ?_ fuel
    intro m hm
    obtain rfl := List.mem_singleton.mp hm
    exact ⟨rfl, rfl⟩
  · refine and_runs_out (fun fuel => turnsBack_resetting fuel (by decide) (by decide)
      (by decide) fun w => rfl) rfl rfl ⟨fun m hm => ?_, fun m hm => ?_⟩ fuel
    · obtain rfl := List.mem_singleton.mp hm
      exact ⟨rfl, rfl⟩
    · obtain rfl := List.mem_singleton.mp hm
      exact ⟨rfl, rfl⟩
  · refine and_runs_out (fun fuel => turnsBack_rebinding (u := .unit) (v := .unit) fuel (by decide)
      (by decide) (by decide) (by decide) (by decide) (fun _ _ => rfl) fun w => rfl) rfl rfl
      ⟨⟨rfl, rfl, rfl, .inl rfl⟩, fun m hm => ?_⟩ fuel
    obtain rfl := List.mem_singleton.mp hm
    exact ⟨rfl, rfl⟩
  · have step (w : World Function Unit) (h : (w.node 0).progress = .fresh ∧
        (w.node 0).busy = false ∧ w.value ⟨0, "X"⟩ = none) :
        ∃ w', (Relation.predicate 0 [⟨0, "X"⟩] (.ofTest fun _ => true)).solve Function.call 1 w =
          .error (.unbound "X" (Relation.predicate 0 [⟨0, "X"⟩]
            (Function.ofTest fun _ => true)).bareImage) w' ∧
          (w'.node 0).progress = .fresh ∧ (w'.node 0).busy = false ∧ w'.value ⟨0, "X"⟩ = none := by
      obtain ⟨fresh, idle, unbound⟩ := h
      refine ⟨_, predicate_interrupts fresh idle unbound, ?_, ?_, unbound⟩
      · rw [World.progress_setBusy, World.progress_setBusy, fresh]
      · simp [World.setBusy]
    exact Act.forever step ⟨rfl, rfl, rfl⟩

end Relation
end RelationSearch
