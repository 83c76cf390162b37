import RelationSearch.Proofs.Algebra

/-! # Searching in stages

Many puzzles are conjunctions of one form: a domain for a new variable, then tests of it together with
variables that already have domains, then the domain of the next variable, and so on (`Stage`).  Such a
conjunction finds the combinations of candidates that pass all tests, in the order in which an odometer
would list them, the first variable varying slowest (`answers_stages`).

A test stands right after the last of its domains, so that it cuts off the search early.  Where it stands
makes no difference to what is found: that it holds is seen when its variables are bound and is not
changed by what is bound later.
-/
namespace RelationSearch

open RelationSearch.Relation

/-! ## Combinations -/

/-- All ways to choose one member of each list.  The choice from the first list varies slowest. -/
def choices {α : Type} : List (List α) → List (List α)
  | [] => [[]]
  | l :: ls => l.flatMap fun a => (choices ls).map (a :: ·)

section Choices

variable {α β : Type}

theorem mem_choices {ls : List (List α)} {t : List α} :
    t ∈ choices ls ↔ List.Forall₂ (· ∈ ·) t ls := by
  induction ls generalizing t with
  | nil => rw [choices, List.mem_singleton, List.forall₂_nil_right_iff]
  | cons l ls ih =>
    rw [choices, List.mem_flatMap]
    constructor
    · rintro ⟨a, ha, h⟩
      obtain ⟨s, hs, rfl⟩ := List.mem_map.mp h
      exact .cons ha (ih.mp hs)
    · intro h
      cases h with
      | cons ha hs => exact ⟨_, ha, List.mem_map_of_mem (ih.mpr hs)⟩

/-- Choosing and then changing what was chosen is choosing from what was changed. -/
theorem choices_map (f : α → β) (ls : List (List α)) :
    choices (ls.map (List.map f)) = (choices ls).map (List.map f) := by
  induction ls with
  | nil => rfl
  | cons l ls ih =>
    rw [List.map_cons, choices, choices, ih, List.flatMap_map, List.map_flatMap]
    simp only [List.map_map]
    rfl

/-- From increasing lists, the combinations come in lexicographic order, none of them twice. -/
theorem increasing_choices {ls : List (List Nat)} (h : ∀ l ∈ ls, l.Pairwise (· < ·)) :
    (choices ls).Pairwise (· < ·) := by
  induction ls with
  | nil => exact List.pairwise_singleton _ _
  | cons l ls ih =>
    obtain ⟨first, later⟩ := List.forall_mem_cons.mp h
    refine List.pairwise_flatMap.mpr ⟨fun a _ => ?_, first.imp fun {a b} less => ?_⟩
    · rw [List.pairwise_map]
      exact (ih later).imp fun less => List.cons_lt_cons_iff.mpr (.inr ⟨rfl, less⟩)
    · intro s hs t ht
      obtain ⟨s, -, rfl⟩ := List.mem_map.mp hs
      obtain ⟨t, -, rfl⟩ := List.mem_map.mp ht
      exact List.cons_lt_cons_iff.mpr (.inl less)

end Choices

/-! ## Giving values to several variables -/

variable {env : Env Function} {value value' : Nat → Option Value} {x y : Var} {v : Value}
variable {xs before : List Var} {vs : List Value} {r : Relation Function}

namespace Env

/-- The environment with several variables bound. -/
def assign (env : Env Function) : List Var → List Value → Env Function
  | x :: xs, v :: vs => (env.bind x v).assign xs vs
  | _, _ => env

theorem assign_cons (env : Env Function) (x : Var) (v : Value) (xs : List Var) (vs : List Value) :
    env.assign (x :: xs) (v :: vs) = (env.bind x v).assign xs vs := rfl

theorem value_assign_of_ne {i : Nat} (h : ∀ x ∈ xs, i ≠ x.id) :
    (env.assign xs vs).value i = env.value i := by
  induction xs generalizing env vs with
  | nil => cases vs <;> rfl
  | cons x xs ih =>
    cases vs with
    | nil => rfl
    | cons v vs =>
      obtain ⟨here, later⟩ := List.forall_mem_cons.mp h
      rw [assign_cons, ih later, value_bind_of_ne here]

/-- Each of several different variables has the value that it was given. -/
theorem value_assign (distinct : (xs.map Var.id).Nodup) {place : Nat} (hx : xs[place]? = some x)
    (hv : vs[place]? = some v) : (env.assign xs vs).value x.id = some v := by
  induction xs generalizing env vs place with
  | nil => cases hx
  | cons y ys ih =>
    obtain ⟨new, distinct⟩ := List.nodup_cons.mp distinct
    cases vs with
    | nil => cases hv
    | cons u us =>
      rw [assign_cons]
      cases place with
      | zero =>
        obtain rfl := Option.some.inj hx
        obtain rfl := Option.some.inj hv
        have apart : ∀ x ∈ ys, y.id ≠ x.id := fun x hx same => new (same ▸ List.mem_map_of_mem hx)
        rw [value_assign_of_ne apart, value_bind_self]
      | succ place => exact ih distinct hx hv

end Env

/-! ## Tests -/

namespace Relation

/-- A comparison or a predicate whose callback cannot fail. -/
def IsTest : Relation Function → Prop
  | .compare _ _ _ c => ∀ v u, ∃ holds, c.judge v u = .ok holds
  | .predicate _ _ f => ∀ vs, ∃ holds, f.holds vs = .ok holds
  | _ => False

theorem valuesOf_of_bound (bound : ∀ x ∈ xs, (env.value x.id).isSome) :
    ∃ vs, env.valuesOf xs = .ok vs := by
  induction xs with
  | nil => exact ⟨[], rfl⟩
  | cons x xs ih =>
    obtain ⟨here, later⟩ := List.forall_mem_cons.mp bound
    obtain ⟨v, held⟩ := Option.isSome_iff_exists.mp here
    obtain ⟨vs, rest⟩ := ih later
    exact ⟨v :: vs, by rw [Env.valuesOf, held, rest]; rfl⟩

theorem valuesOf_congr {e : Env Function} (same : ∀ x ∈ xs, env.value x.id = e.value x.id) :
    env.valuesOf xs = e.valuesOf xs := by
  induction xs with
  | nil => rfl
  | cons x xs ih =>
    obtain ⟨here, later⟩ := List.forall_mem_cons.mp same
    rw [Env.valuesOf, Env.valuesOf, ih later, here]

/-- A test of variables that are bound holds or does not hold; it cannot fail, and binds nothing. -/
theorem IsTest.answers (test : r.IsTest) (bound : ∀ x ∈ r.operands, (env.value x.id).isSome) :
    r.answers env = .given (.ok (r.satisfied env.value)) env := by
  cases r with
  | compare n x y c =>
    obtain ⟨v, left⟩ := Option.isSome_iff_exists.mp (bound x (by simp [operands]))
    obtain ⟨u, right⟩ := Option.isSome_iff_exists.mp (bound y (by simp [operands]))
    obtain ⟨holds, judged⟩ := test v u
    rw [answers_compare_of_bound left right, satisfied_compare left right judged, judged]
  | predicate n xs f =>
    obtain ⟨vs, values⟩ : ∃ vs, env.valuesOf xs = .ok vs := valuesOf_of_bound bound
    obtain ⟨holds, tested⟩ := test vs
    have alone : (⟨env.value, []⟩ : Env Function).valuesOf xs = .ok vs := by
      rw [← values]
      exact valuesOf_congr fun _ _ => rfl
    rw [answers_predicate_of_ok values, satisfied_predicate alone tested, tested]
  | domain | convert | and | or | always | never => cases test

/-- Whether a leaf is satisfied depends on the values of its operands. -/
theorem satisfied_congr (same : ∀ x ∈ r.operands, value x.id = value' x.id) :
    r.satisfied value = r.satisfied value' := by
  cases r with
  | domain n x values => rw [satisfied, satisfied, same x (by simp [operands])]
  | convert n x y f =>
    rw [satisfied, satisfied, same x (by simp [operands]), same y (by simp [operands])]
  | compare n x y c =>
    rw [satisfied, satisfied, Pending.passes, Pending.passes, same x (by simp [operands]),
      same y (by simp [operands])]
  | predicate n xs f =>
    have operands : (⟨value, []⟩ : Env Function).valuesOf xs =
        (⟨value', []⟩ : Env Function).valuesOf xs := valuesOf_congr same
    rw [satisfied, satisfied, operands]
  | and | or | always | never => rfl

/-- Several tests of variables that are bound. -/
theorem answers_tests {rs : List (Relation Function)} (tests : ∀ r ∈ rs, r.IsTest)
    (bound : ∀ r ∈ rs, ∀ x ∈ r.operands, (env.value x.id).isSome) :
    (conjoined rs).answers env = .given (.ok (rs.all (satisfied env.value))) env := by
  induction rs with
  | nil => rfl
  | cons r rs ih =>
    obtain ⟨test, tests⟩ := List.forall_mem_cons.mp tests
    obtain ⟨here, later⟩ := List.forall_mem_cons.mp bound
    have first := test.answers here
    rw [conjoined, List.foldr_cons, answers_and, first, List.all_cons]
    cases r.satisfied env.value with
    | true => exact (Answers.once_bind ..).trans (ih tests later)
    | false => rfl

/-- A conjunction of several relations that are joined from two lists. -/
theorem answers_conjoined_append (rs ss : List (Relation Function)) (env : Env Function) :
    (conjoined (rs ++ ss)).answers env = ((conjoined rs).answers env).bind (conjoined ss).answers :=
  (congrFun (Equated.conjoined_append rs ss).answers env).trans (answers_and _)

end Relation

/-! ## Stages -/

/-- A variable with its candidates, and the tests that are due when it has a value. -/
structure Stage where
  var : Var
  candidates : List Value
  tests : List (Relation Function)

namespace Stage

/-- The domain of the variable and the tests, without numbers. -/
def leaves (s : Stage) : List (Relation Function) := .domain 0 s.var s.candidates :: s.tests

/-- Whether all tests of some stages are satisfied. -/
def pass (value : Nat → Option Value) (stages : List Stage) : Bool :=
  stages.all fun s => s.tests.all (satisfied value)

/-- Every test is of the variable of its stage and of variables before it. -/
def Staged : List Var → List Stage → Prop
  | _, [] => True
  | before, s :: rest =>
    (∀ r ∈ s.tests, r.IsTest ∧ r.operands ⊆ before ++ [s.var]) ∧ Staged (before ++ [s.var]) rest

end Stage

open Stage

theorem Env.bound_bind_of_mem (held : ∀ y ∈ before, (env.value y.id).isSome)
    (hy : y ∈ before ++ [x]) : ((env.bind x v).value y.id).isSome := by
  by_cases same : y.id = x.id
  · rw [same, value_bind_self]
    rfl
  · rw [value_bind_of_ne same]
    rcases List.mem_append.mp hy with hy | hy
    · exact held y hy
    · exact absurd (congrArg Var.id (List.mem_singleton.mp hy)) same

/-- Nothing is asked of a variable as long as nothing is pending. -/
theorem Env.propose_of_idle (idle : env.pending = []) (x : Var) (vs : List Value) :
    (env.propose x vs).answers = ⟨vs.map (env.bind x), none⟩ := by
  have duties : env.duties x = [] := by rw [Env.duties, idle]; rfl
  have apart : env.Apart x := by
    intro duty hd
    rw [duties] at hd
    cases hd
  rw [Env.answers_propose apart]
  induction vs with
  | nil => rfl
  | cons v vs ih =>
    rw [Env.offer, duties, ih]
    rfl

/-- Tests that have been made hold or do not hold whatever is bound later. -/
theorem Stage.tests_assign {s : Stage} {rest : List Stage}
    (tests : ∀ r ∈ s.tests, r.operands ⊆ before ++ [s.var])
    (new : ∀ y ∈ before ++ [s.var], ∀ x ∈ rest.map var, y.id ≠ x.id) :
    s.tests.all (satisfied (env.assign (rest.map var) vs).value) =
      s.tests.all (satisfied env.value) := by
  have same : ∀ r ∈ s.tests, r.satisfied (env.assign (rest.map var) vs).value =
      r.satisfied env.value := by
    intro r hr
    refine satisfied_congr fun y hy => ?_
    exact Env.value_assign_of_ne (new y (tests r hr hy))
  rw [Bool.eq_iff_iff, List.all_eq_true, List.all_eq_true]
  exact forall₂_congr fun r hr => by rw [same r hr]

theorem flatMap_filter {α β : Type} (l : List α) (p : α → Bool) (f : α → List β) :
    (l.filter p).flatMap f = l.flatMap fun a => if p a then f a else [] := by
  induction l with
  | nil => rfl
  | cons a l ih =>
    rw [List.filter_cons, List.flatMap_cons, ← ih]
    split
    · rw [List.flatMap_cons]
    · rfl

/-- A sequence of sequences that all end normally. -/
theorem Answers.bind_of_normal {α β : Type} {found : List α} {next : α → Answers β}
    {f : α → List β} (h : ∀ a ∈ found, next a = ⟨f a, Option.none⟩) :
    (⟨found, Option.none⟩ : Answers α).bind next = ⟨found.flatMap f, Option.none⟩ := by
  induction found with
  | nil => rfl
  | cons a found ih =>
    obtain ⟨here, later⟩ := List.forall_mem_cons.mp h
    rw [bind_cons, here, ih later, List.flatMap_cons]
    rfl

/-- **One stage**: the variable takes the candidates with which all tests of the stage hold. -/
theorem answers_stage {s : Stage} (tests : ∀ r ∈ s.tests, r.IsTest ∧ r.operands ⊆ before ++ [s.var])
    (held : ∀ y ∈ before, (env.value y.id).isSome) (free : env.value s.var.id = none)
    (idle : env.pending = []) :
    (conjoined s.leaves).answers env = ⟨(s.candidates.filter fun v =>
      s.tests.all (satisfied (env.bind s.var v).value)).map (env.bind s.var), none⟩ := by
  have domain : (Relation.domain 0 s.var s.candidates).answers env =
      ⟨s.candidates.map (env.bind s.var), none⟩ := by
    rw [answers_domain_of_free free]
    exact Env.propose_of_idle idle ..
  have tested : ∀ e ∈ s.candidates.map (env.bind s.var),
      (conjoined s.tests).answers e =
        ⟨if s.tests.all (satisfied e.value) then [e] else [], none⟩ := by
    intro e he
    obtain ⟨v, -, rfl⟩ := List.mem_map.mp he
    have bound : ∀ r ∈ s.tests, ∀ y ∈ r.operands, ((env.bind s.var v).value y.id).isSome := by
      intro r hr y hy
      exact Env.bound_bind_of_mem held ((tests r hr).2 hy)
    rw [answers_tests (fun r hr => (tests r hr).1) bound]
    cases s.tests.all (satisfied (env.bind s.var v).value) <;> rfl
  change (Relation.and 0 (.domain 0 s.var s.candidates) (conjoined s.tests)).answers env = _
  rw [answers_and, domain, Answers.bind_of_normal tested, ← flatMap_filter, List.flatMap_singleton',
    List.filter_map]
  rfl

/-- **Stages find the combinations of candidates that pass all tests**, in the order of the combinations. -/
theorem answers_stages {stages : List Stage} (staged : Staged before stages)
    (held : ∀ y ∈ before, (env.value y.id).isSome) (free : ∀ s ∈ stages, env.value s.var.id = none)
    (distinct : (stages.map (·.var.id)).Nodup) (idle : env.pending = []) :
    (conjoined (stages.flatMap leaves)).answers env =
      ⟨((choices (stages.map candidates)).filter fun t =>
        pass (env.assign (stages.map var) t).value stages).map (env.assign (stages.map var)), none⟩ := by
  induction stages generalizing before env with
  | nil => rfl
  | cons s rest ih =>
    obtain ⟨due, staged⟩ := staged
    obtain ⟨here, later⟩ := List.forall_mem_cons.mp free
    obtain ⟨new, distinct⟩ := List.nodup_cons.mp distinct
    have apart : ∀ t ∈ rest, t.var.id ≠ s.var.id :=
      fun t ht same => new (List.mem_map.mpr ⟨t, ht, same⟩)
    have first := answers_stage due held here idle
    have next : ∀ e ∈ (s.candidates.filter fun v =>
          s.tests.all (satisfied (env.bind s.var v).value)).map (env.bind s.var),
        (conjoined (rest.flatMap leaves)).answers e =
          ⟨((choices (rest.map candidates)).filter fun t =>
            pass (e.assign (rest.map var) t).value rest).map (e.assign (rest.map var)), none⟩ := by
      intro e he
      obtain ⟨v, -, rfl⟩ := List.mem_map.mp he
      refine ih staged (fun y hy => Env.bound_bind_of_mem held hy) (fun t ht => ?_) distinct idle
      rw [Env.value_bind_of_ne (apart t ht)]
      exact later t ht
    -- The tests of the first stage have been made when later variables get their values.
    have old (v : Value) (t : List Value) :
        s.tests.all (satisfied ((env.bind s.var v).assign (rest.map var) t).value) =
          s.tests.all (satisfied (env.bind s.var v).value) := by
      refine tests_assign (fun r hr => (due r hr).2) fun y hy x hx same => ?_
      obtain ⟨t, ht, rfl⟩ := List.mem_map.mp hx
      rcases List.mem_append.mp hy with hy | hy
      · have bound := held y hy
        rw [same, later t ht] at bound
        cases bound
      · exact apart t ht (same.symm.trans (congrArg Var.id (List.mem_singleton.mp hy)))
    rw [List.flatMap_cons, answers_conjoined_append, first, Answers.bind_of_normal next,
      List.flatMap_map, flatMap_filter, List.map_cons, List.map_cons, choices, List.filter_flatMap,
      List.map_flatMap]
    refine congrArg (Answers.mk · none) (List.flatMap_congr fun v _ => ?_)
    rw [List.filter_map, List.map_map]
    have passes :
        (fun t => pass (env.assign (s.var :: rest.map var) t).value (s :: rest)) ∘ (v :: ·) =
        fun t => s.tests.all (satisfied (env.bind s.var v).value) &&
          pass ((env.bind s.var v).assign (rest.map var) t).value rest := by
      funext t
      rw [← old v t]
      rfl
    rw [passes]
    cases s.tests.all (satisfied (env.bind s.var v).value) with
    | true => rfl
    | false => simp

end RelationSearch
