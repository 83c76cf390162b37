import RelationSearch.Proofs.Enforcement
import RelationSearch.Proofs.Fuel

/-! # Deferring a comparison is filtering

A comparison of two variables that is put before a relation, or after it, filters the answers of that
relation: of these it keeps those in which one of its operands is unbound or in which it holds, in their
order (`Relation.deferring_is_filtering`).

Put before the relation, it is pending while the relation is searched, and refuses values long before
an answer is complete.  That this comes to the same is seen on the answers of the relation, run from two
environments that differ in one pending comparison (`Env.Inserted`): an offer that the comparison
refuses leads only to answers in which it does not hold, since an answer never changes what was bound
before (`Relation.screens_answers`).
-/
namespace RelationSearch

open Act

variable {σ : Type} {fuel fuel' : Nat} {w w' : World Function σ} {env env' e : Env Function}

/-! ## Sequences without an interrupt -/

namespace Answers

variable {α β : Type} {a b : Answers α}

theorem interrupt_append :
    (a.append b).interrupt = Option.none ↔ a.interrupt = Option.none ∧ b.interrupt = Option.none := by
  rcases a with ⟨found, _ | why⟩ <;> simp [append]

theorem found_append (normal : a.interrupt = Option.none) :
    (a.append b).found = a.found ++ b.found := by
  rcases a with ⟨found, _ | why⟩
  · rfl
  · cases normal

/-- A test ends normally if it does not fail. -/
theorem interrupt_given {test : Except String Bool} {x : α} :
    (given test x).interrupt = Option.none ↔ ∃ holds, test = .ok holds := by
  rcases test with _ | _ | _ <;> simp [given, interrupted, once, none]

theorem append_none (a : Answers α) : a.append .none = a := by
  rcases a with ⟨found, _ | why⟩ <;> simp [append, none]

theorem once_bind (x : α) (next : α → Answers β) : (once x).bind next = next x := append_none _

/-- A sequence of sequences ends normally if all of them do. -/
theorem interrupt_bind {next : α → Answers β} :
    (a.bind next).interrupt = Option.none ↔
      a.interrupt = Option.none ∧ ∀ d ∈ a.found, (next d).interrupt = Option.none := by
  rcases a with ⟨found, i⟩
  induction found with
  | nil => simp
  | cons d rest ih =>
    rw [bind_cons, interrupt_append, ih, List.forall_mem_cons]
    exact and_left_comm

theorem found_bind {next : α → Answers β} (normal : (a.bind next).interrupt = Option.none) :
    (a.bind next).found = a.found.flatMap fun d => (next d).found := by
  rcases a with ⟨found, i⟩
  induction found with
  | nil => rfl
  | cons d rest ih =>
    rw [bind_cons] at normal ⊢
    rw [found_append (interrupt_append.mp normal).1, ih (interrupt_append.mp normal).2,
      List.flatMap_cons]

end Answers

/-! ## One more pending comparison -/

/-- One of the operands is unbound, or the comparison holds of them. -/
def Pending.passes (p : Pending Function) (value : Nat → Option Value) : Bool :=
  match value p.left.id, value p.right.id with
  | some v, some u =>
    match p.comparison.judge v u with
    | .ok holds => holds
    | .error _ => false
  | _, _ => true

theorem Pending.passes_of_bound {p : Pending Function} {value : Nat → Option Value} {v u : Value}
    {holds : Bool} (left : value p.left.id = some v) (right : value p.right.id = some u)
    (judged : p.comparison.judge v u = .ok holds) : p.passes value = holds := by
  simp only [passes, left, right, judged]

theorem Pending.passes_of_free {p : Pending Function} {value : Nat → Option Value}
    (free : value p.left.id = none ∨ value p.right.id = none) : p.passes value = true := by
  rw [passes]
  rcases free with free | free
  · rw [free]
  · rw [free]
    cases value p.left.id <;> rfl

namespace Env

/-- The environments differ only in that `p` is pending in the second one too. -/
structure Inserted (p : Pending Function) (env env' : Env Function) : Prop where
  value : env'.value = env.value
  pending : ∃ older newer, env.pending = older ++ newer ∧ env'.pending = older ++ p :: newer

theorem allowsAt_append (v : Value) (a b : List (Duty Function)) :
    env.allowsAt v (a ++ b) = match env.allowsAt v a with
      | .ok true => env.allowsAt v b
      | refusal => refusal := by
  induction a with
  | nil => rfl
  | cons duty rest ih =>
    rw [List.cons_append, allowsAt, allowsAt]
    rcases env.allows v duty with message | _ | _
    · rfl
    · rfl
    · exact ih

variable {p : Pending Function} {x : Var} {v : Value}

theorem Inserted.bind (h : Inserted p env env') (x : Var) (v : Value) :
    Inserted p (env.bind x v) (env'.bind x v) :=
  ⟨by unfold Env.bind; rw [h.value], h.pending⟩

theorem Inserted.defer (h : Inserted p env env') (x y : Var) (c : Comparison Function) :
    Inserted p (env.defer x y c) (env'.defer x y c) := by
  obtain ⟨older, newer, first, second⟩ := h.pending
  refine ⟨h.value, older, newer ++ [⟨x, y, c⟩], ?_, ?_⟩
  · rw [Env.defer, first, List.append_assoc]
  · rw [Env.defer, second, List.append_assoc, List.cons_append]

theorem Inserted.distinct (h : Inserted p env env') (two : p.left.id ≠ p.right.id)
    (distinct : env.Distinct) : env'.Distinct := by
  obtain ⟨older, newer, first, second⟩ := h.pending
  intro q hq
  rw [second, List.mem_append, List.mem_cons] at hq
  have old (hq : q ∈ older ∨ q ∈ newer) : q.left.id ≠ q.right.id :=
    distinct q (first ▸ List.mem_append.mpr hq)
  rcases hq with hq | rfl | hq
  · exact old (.inl hq)
  · exact two
  · exact old (.inr hq)

theorem Inserted.valuesOf (h : Inserted p env env') (xs : List Var) :
    env'.valuesOf xs = env.valuesOf xs := by
  induction xs with
  | nil => rfl
  | cons x xs ih => simp only [Env.valuesOf, h.value, ih]

/-- The comparison itself allows a value for one of its operands if it passes with that value. -/
theorem allowsAt_duties (two : p.left.id ≠ p.right.id)
    (total : ∀ v u, ∃ holds, p.comparison.judge v u = .ok holds)
    (passes : p.passes env.value = true) :
    env.allowsAt v (p.duties x) = .ok (p.passes (env.bind x v).value) := by
  by_cases left : p.left.id = x.id
  · have right : p.right.id ≠ x.id := fun e => two (left.trans e.symm)
    rw [Pending.duties, if_pos left, if_neg right, List.append_nil, Pending.passes, left,
      value_bind_self, value_bind_of_ne right, allowsAt, allows]
    dsimp only
    cases env.value p.right.id with
    | none => rfl
    | some u =>
      obtain ⟨holds, judged⟩ := total v u
      simp only [if_true, judged]
      cases holds <;> rfl
  · by_cases right : p.right.id = x.id
    · rw [Pending.duties, if_neg left, if_pos right, List.nil_append, Pending.passes, right,
        value_bind_self, value_bind_of_ne left, allowsAt, allows]
      dsimp only
      cases env.value p.left.id with
      | none => rfl
      | some u =>
        obtain ⟨holds, judged⟩ := total u v
        simp only [Bool.false_eq_true, if_false, judged]
        cases holds <;> rfl
    · rw [Pending.duties, if_neg left, if_neg right, Pending.passes, value_bind_of_ne left,
        value_bind_of_ne right]
      rw [Pending.passes] at passes
      rw [passes]
      rfl

/-- With the comparison pending too, a value is allowed if it was and the comparison passes. -/
theorem Inserted.allowsAt (h : Inserted p env env') (two : p.left.id ≠ p.right.id)
    (total : ∀ v u, ∃ holds, p.comparison.judge v u = .ok holds)
    (passes : p.passes env.value = true) {holds : Bool}
    (allowed : env.allowsAt v (env.duties x) = .ok holds) :
    env'.allowsAt v (env'.duties x) = .ok (p.passes (env.bind x v).value && holds) := by
  obtain ⟨older, newer, first, second⟩ := h.pending
  have same (duties : List (Duty Function)) : env'.allowsAt v duties = env.allowsAt v duties := by
    induction duties with
    | nil => rfl
    | cons duty rest ih => simp only [Env.allowsAt, allows, h.value, ih]
  have own := allowsAt_duties (v := v) (x := x) two total passes
  rw [duties, first, List.flatMap_append, allowsAt_append] at allowed
  rw [same, duties, second, List.flatMap_append, List.flatMap_cons, allowsAt_append, allowsAt_append,
    own]
  cases before : env.allowsAt v (older.flatMap (·.duties x)) with
  | error message => rw [before] at allowed; cases allowed
  | ok accepted =>
    rw [before] at allowed
    cases accepted with
    | false =>
      cases allowed
      rw [Bool.and_false]
    | true =>
      cases p.passes (env.bind x v).value with
      | false => rfl
      | true => exact allowed

end Env

/-! ## Screened sequences -/

/-- The second sequence has those answers of the first in which the comparison passes, and it is pending
there too. -/
structure Screened (p : Pending Function) (a a' : Answers (Env Function)) : Prop where
  interrupt : a'.interrupt = none
  found : List.Forall₂ (Env.Inserted p) (a.found.filter fun e => p.passes e.value) a'.found

namespace Screened

variable {p : Pending Function} {a a' b b' : Answers (Env Function)}

theorem none : Screened p .none .none := ⟨rfl, .nil⟩

theorem append (h : Screened p a a') (g : Screened p b b') (normal : a.interrupt = Option.none) :
    Screened p (a.append b) (a'.append b') := by
  refine ⟨Answers.interrupt_append.mpr ⟨h.interrupt, g.interrupt⟩, ?_⟩
  rw [Answers.found_append normal, Answers.found_append h.interrupt, List.filter_append]
  exact List.rel_append h.found g.found

theorem once (h : Env.Inserted p env env') (passes : p.passes env.value = true) :
    Screened p (.once env) (.once env') := by
  refine ⟨rfl, ?_⟩
  rw [show (Answers.once env).found.filter (fun e => p.passes e.value) = [env] by
    simp [Answers.once, passes]]
  exact .cons h .nil

/-- A test that is made together with the comparison. -/
theorem given (h : Env.Inserted p env env') (holds : Bool) :
    Screened p (.given (.ok holds) env) (.given (.ok (p.passes env.value && holds)) env') := by
  cases holds with
  | false =>
    rw [Bool.and_false]
    exact none
  | true =>
    cases passes : p.passes env.value with
    | false =>
      refine ⟨rfl, ?_⟩
      rw [show (Answers.given (.ok true) env).found.filter (fun e => p.passes e.value) = [] by
        simp [Answers.given, Answers.once, passes]]
      exact .nil
    | true => exact once h passes

/-- A test that both environments pass or fail alike. -/
theorem tested (h : Env.Inserted p env env') (passes : p.passes env.value = true)
    {test : Except String Bool} (normal : (Answers.given test env).interrupt = Option.none) :
    Screened p (.given test env) (.given test env') := by
  obtain ⟨holds, rfl⟩ := Answers.interrupt_given.mp normal
  have both := given h holds
  rwa [passes, Bool.true_and] at both

theorem values (h : Screened p a a') :
    a'.found.map Env.value = (a.found.map Env.value).filter p.passes := by
  rw [List.filter_map]
  have related : List.Forall₂ _ (a.found.filter (p.passes ∘ Env.value)) a'.found := h.found
  generalize a.found.filter (p.passes ∘ Env.value) = kept, a'.found = found' at related ⊢
  induction related with
  | nil => rfl
  | cons inserted _ ih => rw [List.map_cons, List.map_cons, inserted.value, ih]

theorem bind {next : Env Function → Answers (Env Function)} (h : Screened p a a')
    (normal : (a.bind next).interrupt = Option.none)
    (passing : ∀ d ∈ a.found, p.passes d.value = true → ∀ d', Env.Inserted p d d' →
      Screened p (next d) (next d'))
    (failing : ∀ d ∈ a.found, p.passes d.value = false →
      ∀ e ∈ (next d).found, p.passes e.value = false) :
    Screened p (a.bind next) (a'.bind next) := by
  rcases a with ⟨found, i⟩
  rcases a' with ⟨found', i'⟩
  obtain ⟨normal', related⟩ := h
  cases normal'
  induction found generalizing found' with
  | nil =>
    cases related
    exact ⟨rfl, .nil⟩
  | cons d rest ih =>
    rw [Answers.bind_cons] at normal ⊢
    obtain ⟨first, later⟩ := Answers.interrupt_append.mp normal
    have goesOn := ih later (fun d hd => passing d (List.mem_cons_of_mem _ hd))
      fun d hd => failing d (List.mem_cons_of_mem _ hd)
    cases passes : p.passes d.value with
    | true =>
      simp only [List.filter_cons, passes, if_true] at related
      obtain ⟨d', rest', inserted, related', rfl⟩ := List.forall₂_cons_left_iff.mp related
      rw [Answers.bind_cons]
      have here := passing d (List.mem_cons_self ..) passes d' inserted
      exact here.append (goesOn rest' related') first
    | false =>
      simp only [List.filter_cons, passes, Bool.false_eq_true, if_false] at related
      -- What follows from an answer that is left out is left out as well.
      have gone : (next d).found.filter (fun e => p.passes e.value) = [] := by
        refine List.filter_eq_nil_iff.mpr fun e he => ?_
        rw [failing d (List.mem_cons_self ..) passes e he]
        exact Bool.false_ne_true
      obtain ⟨normal', related'⟩ := goesOn found' related
      refine ⟨normal', ?_⟩
      rw [Answers.found_append first, List.filter_append, gone, List.nil_append]
      exact related'

end Screened

/-! ## Screened answers -/

namespace Relation

variable {r s : Relation Function} {p : Pending Function} {a b n : Nat} {x y : Var}
variable {c : Comparison Function}

/-- Once both operands are bound, it stays as it is whether the comparison passes. -/
theorem passes_of_mem_answers {v u : Value} (left : env.value p.left.id = some v)
    (right : env.value p.right.id = some u) (h : e ∈ (r.answers env).found) :
    p.passes e.value = p.passes env.value := by
  have later := (sustains_of_mem_answers h).value
  rw [Pending.passes, Pending.passes, left, right, later _ _ left, later _ _ right]

theorem fails_of_mem_answers (fails : p.passes env.value = false)
    (h : e ∈ (r.answers env).found) : p.passes e.value = false := by
  obtain ⟨v, u, left, right⟩ | free := env.bound_or_free p.left p.right
  · exact (passes_of_mem_answers left right h).trans fails
  · rw [Pending.passes_of_free free] at fails
    cases fails

section Screens

variable (two : p.left.id ≠ p.right.id)
variable (total : ∀ v u, ∃ holds, p.comparison.judge v u = .ok holds)
include two total

theorem screens_propose {values : List Value} (h : Env.Inserted p env env')
    (distinct : env.Distinct) (passes : p.passes env.value = true)
    (normal : (env.propose x values).answers.interrupt = none) :
    Screened p (env.propose x values).answers (env'.propose x values).answers := by
  rw [Env.answers_propose (distinct.apart x)] at normal ⊢
  rw [Env.answers_propose ((h.distinct two distinct).apart x)]
  induction values with
  | nil => exact .none
  | cons v rest ih =>
    rw [Env.offer] at normal
    rw [Env.offer, Env.offer]
    obtain ⟨first, later⟩ := Answers.interrupt_append.mp normal
    refine .append ?_ (ih later) first
    cases allowed : env.allowsAt v (env.duties x) with
    | error message => rw [allowed] at first; cases first
    | ok holds =>
      rw [h.allowsAt two total passes allowed]
      exact .given (h.bind x v) holds

/-- **A pending comparison screens the answers**: of those without it, those remain in which it
passes. -/
theorem screens_answers (comparers : r.ComparesTwo) (h : Env.Inserted p env env')
    (distinct : env.Distinct) (passes : p.passes env.value = true)
    (normal : (r.answers env).interrupt = none) :
    Screened p (r.answers env) (r.answers env') := by
  induction r generalizing env env' with
  | domain n x values =>
    cases held : env.value x.id with
    | some v =>
      rw [answers_domain_of_bound held] at normal ⊢
      rw [answers_domain_of_bound (h.value ▸ held)]
      exact .tested h passes normal
    | none =>
      rw [answers_domain_of_free held] at normal ⊢
      rw [answers_domain_of_free (h.value ▸ held)]
      exact screens_propose two total h distinct passes normal
  | convert n x y f =>
    obtain ⟨why, broken⟩ | ⟨v, u, source, ran⟩ := interrupted_or_converts n x y f env
    · rw [broken] at normal
      cases normal
    have source' : env'.value x.id = some v := h.value ▸ source
    cases target : env.value y.id with
    | some held =>
      rw [answers_convert_of_bound source ran target] at normal ⊢
      rw [answers_convert_of_bound source' ran (h.value ▸ target)]
      exact .tested h passes normal
    | none =>
      rw [answers_convert_of_free source ran target] at normal ⊢
      rw [answers_convert_of_free source' ran (h.value ▸ target)]
      exact screens_propose two total h distinct passes normal
  | compare n x y c =>
    obtain ⟨v, u, left, right⟩ | free := env.bound_or_free x y
    · rw [answers_compare_of_bound left right] at normal ⊢
      rw [answers_compare_of_bound (h.value ▸ left) (h.value ▸ right)]
      exact .tested h passes normal
    · rw [answers_compare_of_free free, answers_compare_of_free (h.value ▸ free)]
      exact .once (h.defer x y c) passes
  | predicate n xs f =>
    obtain ⟨why, broken⟩ | ⟨vs, operands⟩ := interrupted_or_tests n xs f env
    · rw [broken] at normal
      cases normal
    · rw [answers_predicate_of_ok operands] at normal ⊢
      rw [answers_predicate_of_ok ((h.valuesOf xs).trans operands)]
      exact .tested h passes normal
  | and n l r ihl ihr =>
    rw [answers_and] at normal ⊢
    rw [answers_and]
    obtain ⟨left, right⟩ := Answers.interrupt_bind.mp normal
    refine .bind (ihl (comparers.mono left_sub_and) h distinct passes left) normal ?_ ?_
    · intro d hd passesD d' inserted
      exact ihr (comparers.mono right_sub_and) inserted
        (distinct_of_mem_answers (comparers.mono left_sub_and) distinct hd) passesD (right d hd)
    · exact fun d hd failsD e he => fails_of_mem_answers failsD he
  | or n l r ihl ihr =>
    rw [answers_or] at normal ⊢
    rw [answers_or]
    obtain ⟨left, right⟩ := Answers.interrupt_append.mp normal
    exact .append (ihl (comparers.mono left_sub_or) h distinct passes left)
      (ihr (comparers.mono right_sub_or) h distinct passes right) left
  | always n => exact .once h passes
  | never n => exact .none

end Screens

/-! ## Conjunctions with a comparison -/

section Conjunctions

variable (total : ∀ v u, ∃ holds, c.judge v u = .ok holds)
include total

/-- A comparison by itself gives its environment if it passes there. -/
theorem values_answers_compare (n : Nat) (env : Env Function) :
    ((Relation.compare n x y c).answers env).interrupt = none ∧
      ((Relation.compare n x y c).answers env).found.map Env.value =
        [env.value].filter (⟨x, y, c⟩ : Pending Function).passes := by
  rw [List.filter_singleton]
  obtain ⟨v, u, left, right⟩ | free := env.bound_or_free x y
  · obtain ⟨holds, judged⟩ := total v u
    rw [answers_compare_of_bound left right, Pending.passes_of_bound left right judged, judged]
    cases holds <;> exact ⟨rfl, rfl⟩
  · rw [answers_compare_of_free free, Pending.passes_of_free free]
    exact ⟨rfl, rfl⟩

theorem values_answers_compare_right (normal : (r.answers env).interrupt = none) :
    ((Relation.and a r (.compare b x y c)).answers env).interrupt = none ∧
      ((Relation.and a r (.compare b x y c)).answers env).found.map Env.value =
        ((r.answers env).found.map Env.value).filter (⟨x, y, c⟩ : Pending Function).passes := by
  have compared := values_answers_compare (x := x) (y := y) total b
  have ends : ((r.answers env).bind (Relation.compare b x y c).answers).interrupt = none :=
    Answers.interrupt_bind.mpr ⟨normal, fun d _ => (compared d).1⟩
  rw [answers_and]
  refine ⟨ends, ?_⟩
  rw [Answers.found_bind ends]
  induction (r.answers env).found with
  | nil => rfl
  | cons d rest ih =>
    rw [List.flatMap_cons, List.map_append, (compared d).2, ih, List.map_cons, ← List.filter_append]
    rfl

theorem values_answers_compare_left (two : x.id ≠ y.id) (comparers : r.ComparesTwo)
    (distinct : env.Distinct) (normal : (r.answers env).interrupt = none) :
    ((Relation.and a (.compare b x y c) r).answers env).interrupt = none ∧
      ((Relation.and a (.compare b x y c) r).answers env).found.map Env.value =
        ((r.answers env).found.map Env.value).filter (⟨x, y, c⟩ : Pending Function).passes := by
  obtain ⟨v, u, left, right⟩ | free := env.bound_or_free x y
  · obtain ⟨holds, judged⟩ := total v u
    have here : (⟨x, y, c⟩ : Pending Function).passes env.value = holds :=
      Pending.passes_of_bound left right judged
    -- Bound operands keep their values, so that all answers pass or none does.
    have same : ∀ value ∈ (r.answers env).found.map Env.value,
        (⟨x, y, c⟩ : Pending Function).passes value = holds := by
      intro value hv
      obtain ⟨e, he, rfl⟩ := List.mem_map.mp hv
      exact (passes_of_mem_answers left right he).trans here
    rw [answers_and, answers_compare_of_bound left right, judged]
    cases holds with
    | true =>
      rw [show Answers.given (.ok true) env = Answers.once env from rfl, Answers.once_bind,
        List.filter_eq_self.mpr same]
      exact ⟨normal, rfl⟩
    | false =>
      rw [List.filter_eq_nil_iff.mpr fun value hv => by rw [same value hv]; exact Bool.false_ne_true]
      exact ⟨rfl, rfl⟩
  · have passes : (⟨x, y, c⟩ : Pending Function).passes env.value = true :=
      Pending.passes_of_free free
    have inserted : Env.Inserted ⟨x, y, c⟩ env (env.defer x y c) :=
      ⟨rfl, env.pending, [], (List.append_nil _).symm, rfl⟩
    have screened := screens_answers two total comparers inserted distinct passes normal
    rw [answers_and, answers_compare_of_free free, Answers.once_bind]
    exact ⟨screened.interrupt, screened.values⟩

end Conjunctions

/-! ## Enumerations -/

/-- The calls of `solve` come to these values of the variables, one after the other, and then to
`false`. -/
def Enumerates (fuel : Nat) (r : Relation Function) :
    List (Nat → Option Value) → World Function σ → Prop
  | [], w => ∃ w', r.solve Function.call fuel w = .ok false w'
  | values :: rest, w => ∃ w', r.solve Function.call fuel w = .ok true w' ∧
      (∀ x : Var, w'.value x = values x.id) ∧ Enumerates fuel r rest w'

theorem Enumerates.mono (le : fuel ≤ fuel') {solutions : List (Nat → Option Value)}
    (h : r.Enumerates fuel solutions w) : r.Enumerates fuel' solutions w := by
  have more {w w' : World Function σ} {answer : Bool}
      (ran : r.solve Function.call fuel w = .ok answer w') :
      r.solve Function.call fuel' w = .ok answer w' := by
    rw [← ran]
    refine solve_extends Function.call le r w fun w'' out => ?_
    rw [ran] at out
    cases out
  induction solutions generalizing w with
  | nil => exact h.imp fun _ => more
  | cons values rest ih =>
    obtain ⟨w', ran, shown, later⟩ := h
    exact ⟨w', more ran, shown, ih later⟩

variable {start : World Function σ} {answers : Answers (Env Function)}

theorem Resumes.enumerates (h : r.Resumes fuel start answers w) (normal : answers.interrupt = none) :
    r.Enumerates fuel (answers.found.map Env.value) w := by
  rcases answers with ⟨found, interrupt⟩
  cases normal
  induction found generalizing w with
  | nil => exact h.ends.imp fun _ ended => ended.1
  | cons env found ih =>
    obtain ⟨w₁, ran, shows, later⟩ := h.next
    exact ⟨w₁, ran, shows.value, ih later⟩

/-- What is enumerated is what was left to give. -/
theorem Resumes.of_enumerates {solutions : List (Nat → Option Value)}
    (h : r.Resumes fuel start answers w) (enumerates : r.Enumerates fuel solutions w) :
    answers.interrupt = none ∧ answers.found.map Env.value = solutions := by
  induction solutions generalizing w answers with
  | nil =>
    obtain ⟨w', ran⟩ := enumerates
    have called := h.call (.refl r w)
    rw [ran] at called
    cases called
    exact ⟨rfl, rfl⟩
  | cons values rest ih =>
    obtain ⟨w', ran, shown, later⟩ := enumerates
    have called := h.call (.refl r w)
    rw [ran] at called
    cases called with
    | @found env found interrupt _ shows next =>
      obtain ⟨normal, same⟩ := ih next later
      have first : env.value = values := by
        funext i
        exact (shows.value ⟨i, ""⟩).symm.trans (shown ⟨i, ""⟩)
      exact ⟨normal, by rw [← first, ← same]; rfl⟩

variable {solutions : List (Nat → Option Value)}

/-- **Deferring a comparison is filtering.**  Let a relation come to its solutions without an error.  Put
before or after it in a conjunction, a comparison of two variables keeps those solutions in which one of
them is unbound or it holds of them, in their order and as often as they come, and the conjunction
ends without an error too. -/
theorem deferring_is_filtering (coherent : r.Coherent) (separated : r.Separated)
    (comparers : r.ComparesTwo) (two : x.id ≠ y.id)
    (total : ∀ v u, ∃ holds, c.judge v u = .ok holds) (newA : a ∉ r.ids) (newB : b ∉ r.ids)
    (apart : a ≠ b) (distinct : env.Distinct) (ready : r.Ready w) (shows : w.Shows env)
    (enumerates : r.Enumerates fuel solutions w) (v : World Function σ)
    (readyV : (Relation.and a (.compare b x y c) r).Ready v) (showsV : v.Shows env) (fuel' : Nat)
    (enough : (Relation.and a (.compare b x y c) r).weight < fuel') :
    (Relation.and a (.compare b x y c) r).Enumerates fuel'
        (solutions.filter (⟨x, y, c⟩ : Pending Function).passes) v ∧
      (Relation.and a r (.compare b x y c)).Enumerates fuel'
        (solutions.filter (⟨x, y, c⟩ : Pending Function).passes) v := by
  have leaf : (Relation.compare b x y c).Coherent := .of_nodup (List.nodup_singleton b)
  have outside : ∀ m ∈ (Relation.compare b x y c).ids, m ∉ r.ids := by
    intro m hm
    rw [List.mem_singleton.mp hm]
    exact newB
  have outA : a ∉ (Relation.compare b x y c).ids := fun h => apart (List.mem_singleton.mp h)
  have more : fuel ≤ max fuel (r.weight + 1) := Nat.le_max_left ..
  have resumes := Resumes.of_ready coherent separated (Nat.lt_of_succ_le (Nat.le_max_right fuel _))
    ready shows
  obtain ⟨normal, same⟩ := resumes.of_enumerates (enumerates.mono more)
  rw [← same]
  constructor
  · obtain ⟨ends, values⟩ := values_answers_compare_left (a := a) (b := b) total two comparers
      distinct normal
    rw [← values]
    exact (Resumes.of_ready (.and leaf coherent outA newA outside) ⟨outside, trivial, separated⟩
      enough readyV showsV).enumerates ends
  · obtain ⟨ends, values⟩ := values_answers_compare_right (a := a) (b := b) (x := x) (y := y) total
      normal
    have readyV' : (Relation.and a r (.compare b x y c)).Ready v := fun m hm =>
      readyV m (mem_ids_and.mpr ((mem_ids_and.mp hm).imp_right Or.symm))
    have enough' : (Relation.and a r (.compare b x y c)).weight < fuel' := by
      rw [weight, Nat.mul_comm]
      exact enough
    have inside : ∀ m ∈ r.ids, m ∉ (Relation.compare b x y c).ids :=
      fun m hm hb => outside m hb hm
    rw [← values]
    exact (Resumes.of_ready (.and coherent leaf newA outA inside) ⟨inside, separated, trivial⟩
      enough' readyV' showsV).enumerates ends

/-- The pairs of two bits, and the two of them that are equal, with the comparison before and after. -/
theorem equal_pairs_filtered :
    let x : Var := ⟨0, "X"⟩
    let y : Var := ⟨1, "Y"⟩
    let bits : List Value := [.bool false, .bool true]
    let pairs : Relation Function := .and 2 (.domain 3 x bits) (.domain 4 y bits)
    let same : Pending Function := ⟨x, y, .equality⟩
    let w : World Function Unit := { client := () }
    ∃ solutions, solutions.length = 4 ∧ (solutions.filter same.passes).length = 2 ∧
      pairs.Enumerates 16 solutions w ∧
      (Relation.and 0 (.compare 1 x y .equality) pairs).Enumerates 32
        (solutions.filter same.passes) w ∧
      (Relation.and 0 pairs (.compare 1 x y .equality)).Enumerates 32
        (solutions.filter same.passes) w := by
  intro x y bits pairs same w
  let env : Env Function := { value := fun _ => none, pending := [] }
  have coherent : pairs.Coherent := .of_nodup (by decide)
  have separated : pairs.Separated := ⟨by decide, trivial, trivial⟩
  have comparers : pairs.ComparesTwo := fun n z u d hs => by simp [pairs, subs] at hs
  have distinct : env.Distinct := fun q hq => absurd hq List.not_mem_nil
  have enumerates : pairs.Enumerates 16 ((pairs.answers env).found.map Env.value) w :=
    (Resumes.of_ready coherent separated (by decide) (.blank pairs ()) (.blank ())).enumerates
      (by decide +kernel)
  obtain ⟨before, after⟩ := deferring_is_filtering (a := 0) (b := 1) (x := x) (y := y)
    (c := .equality) coherent separated comparers (by decide) (fun v u => ⟨_, rfl⟩) (by decide)
    (by decide) (by decide) distinct (.blank pairs ()) (.blank ()) enumerates w (.blank _ ())
    (.blank ()) 32 (by decide)
  exact ⟨_, by decide +kernel, by decide +kernel, enumerates, before, after⟩

end Relation
end RelationSearch
