import Mathlib.Data.Multiset.Bind
import RelationSearch.Proofs.Filtering

/-! # The ways in which values satisfy a relation

Which values of the variables a relation has for a solution, and how often, can be said without any order
of search.  Fix the values.  A way to satisfy the relation by them takes one side of every disjunction
it meets, such that every leaf on the way is satisfied; of the way, only the variables matter that its
leaves bind (`Relation.ways`).  The values are a solution once for every way that binds, together with
what was bound before, exactly the variables that have a value (`Relation.count_values`).

The search comes to the values by binding one variable after the other, so the proof follows the
environments that can still come to them (`Env.Nears`).  It assumes that `==` is equality on the values
that occur, that no candidate is listed twice, and that comparisons are of two variables
(`Relation.Orderly`).
-/
namespace RelationSearch

variable {base value : Nat → Option Value} {env e : Env Function} {good : Value → Prop}

/-! ## Ways -/

namespace Relation

variable {r s l : Relation Function} {n : Nat}

/-- Whether a leaf is satisfied by values of the variables. -/
def satisfied (value : Nat → Option Value) : Relation Function → Bool
  | .domain _ x values => (value x.id).any values.contains
  | .convert _ x y f =>
    match value x.id with
    | some v =>
      match f [v] with
      | .ok u => (value y.id).any (· == u)
      | .error _ => false
    | none => false
  | .compare _ x y c => (⟨x, y, c⟩ : Pending Function).passes value
  | .predicate _ xs f =>
    match (⟨value, []⟩ : Env Function).valuesOf xs with
    | .ok vs =>
      match f.holds vs with
      | .ok holds => holds
      | .error _ => false
    | .error _ => false
  | .always _ => true
  | .never _ | .and .. | .or .. => false

/-- The variables that a leaf binds if they are not bound. -/
def binds : Relation Function → Set Nat
  | .domain _ x _ => {x.id}
  | .convert _ _ y _ => {y.id}
  | .compare .. | .predicate .. | .always _ | .never _ | .and .. | .or .. => ∅

/-- The ways to satisfy a relation by values of the variables: of each way, the variables it binds. -/
def ways (value : Nat → Option Value) : Relation Function → Multiset (Set Nat)
  | .and _ l r => (l.ways value).bind fun a => (r.ways value).map (a ∪ ·)
  | .or _ l r => l.ways value + r.ways value
  | leaf => if leaf.satisfied value then {leaf.binds} else 0

section Satisfied

variable {x y : Var} {f : Function} {c : Comparison Function} {v u : Value} {vs : List Value}
variable {xs : List Var} {holds : Bool}

theorem satisfied_domain (held : value x.id = some v) (values : List Value) :
    (Relation.domain n x values).satisfied value = values.contains v := by
  rw [satisfied, held, Option.any_some]

theorem satisfied_convert (held : value x.id = some v) (ran : f [v] = .ok u) :
    (Relation.convert n x y f).satisfied value = (value y.id).any (· == u) := by
  rw [satisfied, held]
  dsimp only
  rw [ran]

theorem satisfied_compare (left : value x.id = some v) (right : value y.id = some u)
    (judged : c.judge v u = .ok holds) : (Relation.compare n x y c).satisfied value = holds :=
  Pending.passes_of_bound left right judged

theorem satisfied_predicate (values : (⟨value, []⟩ : Env Function).valuesOf xs = .ok vs)
    (test : f.holds vs = .ok holds) : (Relation.predicate n xs f).satisfied value = holds := by
  rw [satisfied, values]
  dsimp only
  rw [test]

end Satisfied

theorem ways_of_isLeaf (leaf : r.IsLeaf) (value : Nat → Option Value) :
    r.ways value = if r.satisfied value then {r.binds} else 0 := by
  cases r with
  | and | or => cases leaf
  | domain | convert | compare | predicate | always | never => rfl

/-- All values that candidates and conversions bring are good, if the values that are converted are. -/
structure Typed (good : Value → Prop) (r : Relation Function) : Prop where
  candidates : ∀ n x values, Relation.domain n x values ∈ r.subs → ∀ v ∈ values, good v
  conversions : ∀ n x y f, Relation.convert n x y f ∈ r.subs → ∀ v u, good v → f [v] = .ok u → good u

theorem Typed.mono (h : r.Typed good) (hs : s ∈ r.subs) : s.Typed good where
  candidates n x values hd := h.candidates n x values (mem_subs_trans hd hs)
  conversions n x y f hc := h.conversions n x y f (mem_subs_trans hc hs)

/-- What is asked of a relation: comparisons are of two variables, no candidate is listed twice, and all
values that candidates and conversions bring are good. -/
structure Orderly (good : Value → Prop) (r : Relation Function) : Prop where
  two : r.ComparesTwo
  nodup : ∀ n x values, Relation.domain n x values ∈ r.subs → values.Nodup
  candidates : ∀ n x values, Relation.domain n x values ∈ r.subs → ∀ v ∈ values, good v
  conversions : ∀ n x y f, Relation.convert n x y f ∈ r.subs → ∀ v u, good v → f [v] = .ok u → good u

theorem Orderly.typed (h : r.Orderly good) : r.Typed good := ⟨h.candidates, h.conversions⟩

theorem Orderly.mono (h : r.Orderly good) (hs : s ∈ r.subs) : s.Orderly good where
  two := h.two.mono hs
  nodup n x values hd := h.nodup n x values (mem_subs_trans hd hs)
  candidates n x values hd := h.candidates n x values (mem_subs_trans hd hs)
  conversions n x y f hc := h.conversions n x y f (mem_subs_trans hc hs)

end Relation

/-! ## Environments on the way -/

/-- Both operands have a value. -/
def Pending.Closed (q : Pending Function) (value : Nat → Option Value) : Prop :=
  (value q.left.id).isSome ∧ (value q.right.id).isSome

theorem Pending.judge_of_passes (q : Pending Function) {v u : Value} (passes : q.passes value = true)
    (left : value q.left.id = some v) (right : value q.right.id = some u) :
    q.comparison.judge v u = .ok true := by
  rw [Pending.passes, left, right] at passes
  dsimp only at passes
  cases judged : q.comparison.judge v u with
  | error message => rw [judged] at passes; cases passes
  | ok holds => rw [judged] at passes; exact congrArg _ passes

namespace Env

/-- The environment, which came about from one with the values `base`, can come to `value`: what it binds
has the same value there, and what is pending passes there, unless it has been closed from the
beginning. -/
structure Nears (base value : Nat → Option Value) (env : Env Function) : Prop where
  agrees : ∀ i v, env.value i = some v → value i = some v
  since : ∀ i, env.value i = none → base i = none
  passes : ∀ q ∈ env.pending, q.Closed base ∨ q.passes value = true

/-- The variables that have a value. -/
def bound (env : Env Function) : Set Nat := {i | (env.value i).isSome}

theorem Nears.of_sustains (h : e.Nears base value) (sustains : env.Sustains e)
    (since : ∀ i, env.value i = none → base i = none) (later : ∀ q ∈ env.pending, q ∈ e.pending) :
    env.Nears base value where
  agrees i v hv := h.agrees i v (sustains.value i v hv)
  since := since
  passes q hq := h.passes q (later q hq)

/-- A value that is on the way is offered with success. -/
theorem Nears.allowsAt (h : env.Nears base value) {x : Var} {v : Value} (free : env.value x.id = none)
    (onWay : value x.id = some v) : env.allowsAt v (env.duties x) = .ok true := by
  have each : ∀ duty ∈ env.duties x, env.allows v duty = .ok true := by
    intro duty hd
    obtain ⟨q, hq, hd⟩ := List.mem_flatMap.mp hd
    -- A comparison of `x` was not closed in the beginning, as `x` is not even bound now.
    have passes (own : q.left.id = x.id ∨ q.right.id = x.id) : q.passes value = true := by
      refine (h.passes q hq).resolve_left fun closed => ?_
      have before := h.since _ free
      rcases own with own | own
      · rw [Pending.Closed, own, before] at closed
        exact nomatch closed.1
      · rw [Pending.Closed, own, before] at closed
        exact nomatch closed.2
    unfold Pending.duties at hd
    rcases List.mem_append.mp hd with hd | hd
    · split at hd
      · rename_i left
        obtain rfl := List.mem_singleton.mp hd
        rw [allows]
        cases held : env.value q.right.id with
        | none => rfl
        | some u => exact q.judge_of_passes (passes (.inl left)) (left ▸ onWay) (h.agrees _ _ held)
      · cases hd
    · split at hd
      · rename_i right
        obtain rfl := List.mem_singleton.mp hd
        rw [allows]
        cases held : env.value q.left.id with
        | none => rfl
        | some u => exact q.judge_of_passes (passes (.inr right)) (h.agrees _ _ held) (right ▸ onWay)
      · cases hd
  generalize env.duties x = duties at each
  induction duties with
  | nil => rfl
  | cons duty rest ih =>
    rw [Env.allowsAt, each duty (List.mem_cons_self ..)]
    exact ih fun d hd => each d (List.mem_cons_of_mem _ hd)

theorem Nears.bind (h : env.Nears base value) {x : Var} {v : Value} (onWay : value x.id = some v) :
    (env.bind x v).Nears base value where
  agrees i u hu := by
    by_cases here : i = x.id
    · rw [here, value_bind_self] at hu
      rw [here, onWay, ← hu]
    · rw [value_bind_of_ne here] at hu
      exact h.agrees i u hu
  since i free := h.since i (free_of_bind free)
  passes := h.passes

theorem bound_bind (env : Env Function) (x : Var) (v : Value) :
    (env.bind x v).bound = env.bound ∪ {x.id} := by
  ext i
  by_cases here : i = x.id
  · simp [bound, here, value_bind_self]
  · simp [bound, here, value_bind_of_ne here]

theorem bound_eq_union (h : (env.value n).isSome) : env.bound = env.bound ∪ {n} := by
  refine (Set.union_eq_self_of_subset_right ?_).symm
  rintro i rfl
  exact h

end Env

/-! ## What the environments on the way have bound -/

section Bags

open Classical

/-- Of the environments that can come to the values, the variables that they have bound. -/
noncomputable def bag (base value : Nat → Option Value) (found : List (Env Function)) :
    Multiset (Set Nat) :=
  ↑((found.filter fun e => e.Nears base value).map Env.bound)

theorem bag_append (a b : List (Env Function)) :
    bag base value (a ++ b) = bag base value a + bag base value b := by
  rw [bag, List.filter_append, List.map_append, ← Multiset.coe_add]
  rfl

theorem bag_singleton (h : e.Nears base value) : bag base value [e] = {e.bound} := by
  simp [bag, h]

theorem bag_eq_zero {found : List (Env Function)} (h : ∀ e ∈ found, ¬ e.Nears base value) :
    bag base value found = 0 := by
  rw [bag, List.filter_eq_nil_iff.mpr fun e he => by simpa using h e he]
  rfl

/-- A test that is passed or failed on the way. -/
theorem bag_given (h : env.Nears base value) {test : Except String Bool} {holds : Bool}
    (same : test = .ok holds) {s : Set Nat} (own : env.bound = env.bound ∪ s) :
    bag base value (Answers.given test env).found =
      ((if holds then {s} else 0 : Multiset (Set Nat)).map (env.bound ∪ ·)) := by
  subst same
  cases holds with
  | false => rfl
  | true =>
    rw [if_pos rfl, Multiset.map_singleton, ← own]
    exact bag_singleton h

/-- Where the ways go on from each environment alike, they go on from what is bound. -/
theorem bag_flatMap {found : List (Env Function)} {next : Env Function → List (Env Function)}
    {later : Multiset (Set Nat)}
    (near : ∀ d ∈ found, d.Nears base value → bag base value (next d) = later.map (d.bound ∪ ·))
    (far : ∀ d ∈ found, ¬ d.Nears base value → bag base value (next d) = 0) :
    bag base value (found.flatMap next) =
      (bag base value found).bind fun a => later.map (a ∪ ·) := by
  induction found with
  | nil => rfl
  | cons d rest ih =>
    have goesOn := ih (fun d hd => near d (List.mem_cons_of_mem _ hd))
      fun d hd => far d (List.mem_cons_of_mem _ hd)
    rw [List.flatMap_cons, bag_append, goesOn, ← List.singleton_append, bag_append,
      Multiset.add_bind]
    congr 1
    by_cases h : d.Nears base value
    · rw [near d (List.mem_cons_self ..) h, bag_singleton h, Multiset.singleton_bind]
    · have off : bag base value [d] = 0 := bag_eq_zero (List.forall_mem_singleton.mpr h)
      rw [far d (List.mem_cons_self ..) h, off, Multiset.zero_bind]

end Bags

/-! ## What is good -/

/-- On good values, `==` is equality. -/
def Exact (good : Value → Prop) : Prop := ∀ u v, good u → good v → ((u == v) = true ↔ u = v)

theorem Exact.contains (exact : Exact good) {v : Value} {values : List Value} (hv : good v)
    (candidates : ∀ u ∈ values, good u) : values.contains v = true ↔ v ∈ values := by
  rw [List.contains_iff_exists_mem_beq]
  constructor
  · rintro ⟨u, hu, same⟩
    rwa [(exact v u hv (candidates u hu)).mp same]
  · exact fun h => ⟨v, h, (exact v v hv hv).mpr rfl⟩

/-- The variables have good values. -/
def Env.Good (good : Value → Prop) (env : Env Function) : Prop :=
  ∀ i v, env.value i = some v → good v

namespace Relation

variable {r l : Relation Function} {n : Nat} {x y : Var}

theorem good_of_mem_answers (typed : r.Typed good) (start : env.Good good)
    (h : e ∈ (r.answers env).found) : e.Good good := by
  refine along_answers (P := fun env e => env.Good good → e.Good good) (fun _ => id)
    (fun h g => g ∘ h) ?_ (fun _ _ _ => id) h start
  intro env x values u brings _ hu _ start
  have new : good u := by
    cases brings with
    | candidates hd => exact typed.candidates _ _ _ hd u hu
    | result hc held ran =>
      rw [List.mem_singleton.mp hu]
      exact typed.conversions _ _ _ _ hc _ _ (start _ _ held) ran
  intro i v hv
  by_cases here : i = x.id
  · rw [here, Env.value_bind_self] at hv
    cases hv
    exact new
  · rw [Env.value_bind_of_ne here] at hv
    exact start i v hv

/-- What is pending stays pending. -/
theorem pending_subset_of_mem_answers (h : e ∈ (r.answers env).found) : env.pending ⊆ e.pending := by
  refine along_answers (P := fun env e : Env Function => env.pending ⊆ e.pending)
    (fun _ => List.Subset.refl _) List.Subset.trans (fun _ _ _ _ => List.Subset.refl _)
    (fun _ _ _ => List.subset_append_left ..) h

/-- Answers are on the way only if what they come from is. -/
theorem nears_of_mem_answers (since : ∀ i, env.value i = none → base i = none)
    (h : e ∈ (r.answers env).found) (near : e.Nears base value) : env.Nears base value :=
  near.of_sustains (sustains_of_mem_answers h) since (pending_subset_of_mem_answers h)

theorem since_of_mem_answers (since : ∀ i, env.value i = none → base i = none)
    (h : e ∈ (r.answers env).found) (i : Nat) (free : e.value i = none) : base i = none := by
  refine since i ?_
  cases held : env.value i with
  | none => rfl
  | some v => exact nomatch free.symm.trans ((sustains_of_mem_answers h).value i v held)

end Relation

/-! ## Counting the ways -/

/-- Operands that are bound keep their values where all that is bound does. -/
theorem Env.valuesOf_of_agrees (agrees : ∀ i v, env.value i = some v → e.value i = some v)
    {xs : List Var} {vs : List Value} (same : env.valuesOf xs = .ok vs) : e.valuesOf xs = .ok vs := by
  induction xs generalizing vs with
  | nil => exact same
  | cons x xs ih =>
    rw [Env.valuesOf] at same ⊢
    cases held : env.value x.id with
    | none => rw [held] at same; cases same
    | some v =>
      rw [held] at same
      rw [agrees _ _ held]
      cases rest : env.valuesOf xs with
      | error y => rw [rest] at same; cases same
      | ok us =>
        rw [rest] at same
        rw [ih rest]
        exact same

/-- A comparison that is put off is on the way if it passes there. -/
theorem Relation.bag_defer {x y : Var} {c : Comparison Function} (n : Nat) (near : env.Nears base value)
    (unbound : env.value x.id = none ∨ env.value y.id = none) :
    bag base value (Answers.once (env.defer x y c)).found =
      ((Relation.compare n x y c).ways value).map (env.bound ∪ ·) := by
  have last : (⟨x, y, c⟩ : Pending Function) ∈ (env.defer x y c).pending :=
    List.mem_append_right _ (List.mem_singleton_self _)
  rw [Relation.ways_of_isLeaf (r := .compare n x y c) rfl]
  by_cases passes : (Relation.compare n x y c).satisfied value = true
  · have comes : (env.defer x y c).Nears base value := by
      refine ⟨near.agrees, near.since, fun q hq => ?_⟩
      rcases List.mem_append.mp hq with hq | hq
      · exact near.passes q hq
      · exact .inr (List.mem_singleton.mp hq ▸ passes)
    rw [if_pos passes, Multiset.map_singleton, Relation.binds, Set.union_empty]
    exact bag_singleton comes
  · rw [if_neg passes]
    refine bag_eq_zero fun e he comes => ?_
    obtain rfl := List.mem_singleton.mp he
    refine (comes.passes _ last).elim (fun closed => ?_) passes
    rcases unbound with free | free
    · exact absurd closed.1 (by simp [near.since _ free])
    · exact absurd closed.2 (by simp [near.since _ free])

theorem Relation.bag_compare {x y : Var} {c : Comparison Function} {n : Nat}
    (near : env.Nears base value)
    (normal : ((Relation.compare n x y c).answers env).interrupt = none) :
    bag base value ((Relation.compare n x y c).answers env).found =
      ((Relation.compare n x y c).ways value).map (env.bound ∪ ·) := by
  obtain ⟨v, u, left, right⟩ | free := env.bound_or_free x y
  · rw [answers_compare_of_bound left right] at normal ⊢
    obtain ⟨holds, judged⟩ := Answers.interrupt_given.mp normal
    rw [ways_of_isLeaf (r := .compare n x y c) rfl,
      satisfied_compare (near.agrees _ _ left) (near.agrees _ _ right) judged]
    exact bag_given near judged (Set.union_empty _).symm
  · rw [answers_compare_of_free free]
    exact bag_defer n near free

theorem Relation.bag_predicate {xs : List Var} {f : Function} {n : Nat}
    (near : env.Nears base value)
    (normal : ((Relation.predicate n xs f).answers env).interrupt = none) :
    bag base value ((Relation.predicate n xs f).answers env).found =
      ((Relation.predicate n xs f).ways value).map (env.bound ∪ ·) := by
  obtain ⟨why, broken⟩ | ⟨vs, operands⟩ := interrupted_or_tests n xs f env
  · rw [broken] at normal
    cases normal
  · rw [answers_predicate_of_ok operands] at normal ⊢
    obtain ⟨holds, test⟩ := Answers.interrupt_given.mp normal
    rw [ways_of_isLeaf (r := .predicate n xs f) rfl,
      satisfied_predicate (Env.valuesOf_of_agrees near.agrees operands) test]
    exact bag_given near test (Set.union_empty _).symm

section Counts

variable (exact : Exact good) (goods : ∀ i v, value i = some v → good v)
include exact goods

theorem bag_propose {x : Var} {values : List Value} (near : env.Nears base value)
    (distinct : env.Distinct) (free : env.value x.id = none) (nodup : values.Nodup)
    (candidates : ∀ v ∈ values, good v) (normal : (env.propose x values).answers.interrupt = none) :
    bag base value (env.propose x values).answers.found =
      (if (value x.id).any values.contains then {{x.id}} else 0 : Multiset (Set Nat)).map
        (env.bound ∪ ·) := by
  rw [Env.answers_propose (distinct.apart x)] at normal ⊢
  induction values with
  | nil => cases value x.id <;> rfl
  | cons v rest ih =>
    obtain ⟨new, nodup⟩ := List.nodup_cons.mp nodup
    obtain ⟨goodV, candidates⟩ := List.forall_mem_cons.mp candidates
    rw [Env.offer] at normal ⊢
    obtain ⟨first, later⟩ := Answers.interrupt_append.mp normal
    rw [Answers.found_append first, bag_append, ih nodup candidates later]
    by_cases onWay : value x.id = some v
    -- The value that is on the way is listed here and nowhere else.
    · have here : (v :: rest).contains v = true :=
        (exact.contains goodV (List.forall_mem_cons.mpr ⟨goodV, candidates⟩)).mpr
          (List.mem_cons_self ..)
      have nowhere : rest.contains v = false := by
        rw [Bool.eq_false_iff, Ne, exact.contains goodV candidates]
        exact new
      rw [near.allowsAt free onWay, onWay]
      simp only [Option.any_some, here, nowhere, if_true, Bool.false_eq_true, if_false,
        Multiset.map_singleton, Multiset.map_zero, add_zero]
      rw [← Env.bound_bind]
      exact bag_singleton (near.bind onWay)
    · have off : bag base value (Answers.given (env.allowsAt v (env.duties x)) (env.bind x v)).found
          = 0 := by
        refine bag_eq_zero fun e he comes => onWay (comes.agrees _ _ ?_)
        rw [(Answers.mem_given he).2, Env.value_bind_self]
      have same : (value x.id).any (v :: rest).contains = (value x.id).any rest.contains := by
        cases held : value x.id with
        | none => rfl
        | some u =>
          have apart : (u == v) = false := by
            rw [Bool.eq_false_iff, Ne, exact u v (goods _ _ held) goodV]
            rintro rfl
            exact onWay held
          rw [Option.any_some, Option.any_some, List.contains_cons, apart, Bool.false_or]
      rw [off, zero_add, same]

namespace Relation

variable {r : Relation Function} {n : Nat} {x y : Var}

theorem bag_domain {values : List Value} (orderly : (Relation.domain n x values).Orderly good)
    (distinct : env.Distinct) (near : env.Nears base value)
    (normal : ((Relation.domain n x values).answers env).interrupt = none) :
    bag base value ((Relation.domain n x values).answers env).found =
      ((Relation.domain n x values).ways value).map (env.bound ∪ ·) := by
  rw [ways_of_isLeaf (r := .domain n x values) rfl]
  cases held : env.value x.id with
  | some v =>
    rw [answers_domain_of_bound held, satisfied_domain (near.agrees _ _ held)]
    exact bag_given near rfl (Env.bound_eq_union (by rw [held]; rfl))
  | none =>
    rw [answers_domain_of_free held] at normal ⊢
    exact bag_propose exact goods near distinct held (orderly.nodup _ _ _ (mem_subs_self _))
      (orderly.candidates _ _ _ (mem_subs_self _)) normal

theorem bag_convert {f : Function} (orderly : (Relation.convert n x y f).Orderly good)
    (start : env.Good good) (distinct : env.Distinct) (near : env.Nears base value)
    (normal : ((Relation.convert n x y f).answers env).interrupt = none) :
    bag base value ((Relation.convert n x y f).answers env).found =
      ((Relation.convert n x y f).ways value).map (env.bound ∪ ·) := by
  rw [ways_of_isLeaf (r := .convert n x y f) rfl]
  obtain ⟨why, broken⟩ | ⟨v, u, source, ran⟩ := interrupted_or_converts n x y f env
  · rw [broken] at normal
    cases normal
  rw [satisfied_convert (near.agrees _ _ source) ran]
  cases target : env.value y.id with
  | some held =>
    rw [answers_convert_of_bound source ran target, near.agrees _ _ target]
    exact bag_given near rfl (Env.bound_eq_union (by rw [target]; rfl))
  | none =>
    rw [answers_convert_of_free source ran target] at normal ⊢
    have result : good u :=
      orderly.conversions _ _ _ _ (mem_subs_self _) _ _ (start _ _ source) ran
    have single : [u].contains = (· == u) := by
      funext v
      rw [List.contains_cons, List.contains_nil, Bool.or_false]
    rw [← single]
    exact bag_propose exact goods near distinct target (List.nodup_singleton u)
      (List.forall_mem_singleton.mpr result) normal

/-- **The search finds every way once.**  Of the answers that a relation has in an environment that is on
the way to some values, those that are still on the way have bound what the ways to satisfy the
relation bind: each way gives one of them. -/
theorem bag_answers (orderly : r.Orderly good) (start : env.Good good) (distinct : env.Distinct)
    (near : env.Nears base value) (normal : (r.answers env).interrupt = none) :
    bag base value (r.answers env).found = (r.ways value).map (env.bound ∪ ·) := by
  induction r generalizing env with
  | domain n x values => exact bag_domain exact goods orderly distinct near normal
  | convert n x y f => exact bag_convert exact goods orderly start distinct near normal
  | compare n x y c => exact bag_compare near normal
  | predicate n xs f => exact bag_predicate near normal
  | and n l r ihl ihr =>
    rw [answers_and] at normal ⊢
    obtain ⟨left, right⟩ := Answers.interrupt_bind.mp normal
    have own := orderly.mono left_sub_and
    rw [Answers.found_bind normal, ways,
      bag_flatMap
        (fun d hd comes => ihr (orderly.mono right_sub_and) (good_of_mem_answers own.typed start hd)
          (distinct_of_mem_answers own.two distinct hd) comes (right d hd))
        (fun d hd off => bag_eq_zero fun e he comes =>
          off (nears_of_mem_answers (since_of_mem_answers near.since hd) he comes)),
      ihl own start distinct near left, Multiset.bind_map, Multiset.map_bind]
    refine Multiset.bind_congr fun a _ => ?_
    rw [Multiset.map_map]
    exact Multiset.map_congr rfl fun b _ => Set.union_assoc ..
  | or n l r ihl ihr =>
    rw [answers_or] at normal ⊢
    obtain ⟨left, right⟩ := Answers.interrupt_append.mp normal
    rw [Answers.found_append left, bag_append, ways, Multiset.map_add,
      ihl (orderly.mono left_sub_or) start distinct near left,
      ihr (orderly.mono right_sub_or) start distinct near right]
  | always n =>
    have test : bag base value (Answers.given (.ok true) env).found = _ :=
      bag_given near rfl (Set.union_empty _).symm
    exact test
  | never n => rfl

end Relation

end Counts

/-! ## Counting the answers -/

namespace Env

/-- What is pending was closed from the beginning, or is upheld. -/
def Standing (base : Nat → Option Value) (env : Env Function) : Prop :=
  ∀ q ∈ env.pending, q.Closed base ∨ env.Upholds q

theorem Standing.start (distinct : env.Distinct) : env.Standing env.value := by
  intro q hq
  by_cases closed : q.Closed env.value
  · exact .inl closed
  · refine .inr ⟨fun v u left right => ?_, fun _ => ⟨hq, distinct q hq⟩⟩
    exact absurd ⟨by rw [left]; rfl, by rw [right]; rfl⟩ closed

theorem Standing.nears (h : env.Standing base) (since : ∀ i, env.value i = none → base i = none) :
    env.Nears base env.value where
  agrees _ _ := id
  since := since
  passes q hq := by
    refine (h q hq).imp_right fun upheld => ?_
    rw [Pending.passes]
    cases left : env.value q.left.id with
    | none => rfl
    | some v =>
      cases right : env.value q.right.id with
      | none => rfl
      | some u =>
        dsimp only
        rw [upheld.holds v u left right]

end Env

namespace Relation

variable {r : Relation Function}

theorem standing_of_mem_answers (two : r.ComparesTwo) (start : env.Standing base)
    (h : e ∈ (r.answers env).found) : e.Standing base := by
  refine along_answers (P := fun env e => env.Standing base → e.Standing base) (fun _ => id)
    (fun h g => g ∘ h) (fun _ free _ admits start q hq => ?_)
    (fun hc env unbound start q hq => ?_) h start
  · exact (start q hq).imp_right ((Env.Sustains.bind free admits).upholds q)
  · rcases List.mem_append.mp hq with old | new
    · exact (start q old).imp_right ((Env.Sustains.defer env _ _ _).upholds q)
    · obtain rfl := List.mem_singleton.mp new
      refine .inr ⟨fun v u left right => ?_, fun _ => ⟨hq, two _ _ _ _ hc⟩⟩
      rcases unbound with free | free
      · exact nomatch free.symm.trans left
      · exact nomatch free.symm.trans right

/-- The values that the search finds are those of an environment on the way to them. -/
theorem nears_of_mem_found (two : r.ComparesTwo) (distinct : env.Distinct)
    (h : e ∈ (r.answers env).found) : e.Nears env.value e.value :=
  (standing_of_mem_answers two (.start distinct) h).nears (since_of_mem_answers (fun _ => id) h)

open Classical in
/-- **How often the search finds some values.**  On the way to the values of the variables, they are found
once for every way to satisfy the relation by them that leaves just those variables unbound which have
no value. -/
theorem count_values (exact : Exact good) (goods : ∀ i v, value i = some v → good v)
    (orderly : r.Orderly good) (start : env.Good good) (distinct : env.Distinct)
    (near : env.Nears env.value value) (normal : (r.answers env).interrupt = none) :
    ((r.answers env).found.map Env.value).count value =
      ((r.ways value).map (env.bound ∪ ·)).count {i | (value i).isSome} := by
  rw [← bag_answers exact goods orderly start distinct near normal, bag, Multiset.coe_count,
    List.count, List.count, List.countP_map, List.countP_map, List.countP_filter]
  refine List.countP_congr fun e he => ?_
  simp only [Function.comp_apply, beq_iff_eq, decide_eq_true_eq, Bool.and_eq_true]
  constructor
  · rintro rfl
    exact ⟨rfl, nears_of_mem_found orderly.two distinct he⟩
  -- An environment on the way that has bound what has a value has come to the values.
  · rintro ⟨all, near⟩
    funext i
    cases held : e.value i with
    | some v => exact (near.agrees i v held).symm
    | none =>
      have unbound : i ∉ {i | (value i).isSome} := all ▸ by simp [Env.bound, held]
      exact (Option.not_isSome_iff_eq_none.mp unbound).symm

end Relation
end RelationSearch
