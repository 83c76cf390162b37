import RelationSearch.Proofs.Dialogue

/-! # What a search answers

Where callbacks are functions, nothing depends on what they are asked, and what remains of a relation's
dialogue is the sequence of its answers (`Relation.answers`).  Each answer comes about by values that
unbound variables take, and by comparisons that are put off (`Relation.along_answers`).

If all comparisons are of two variables, those that are pending and those in the relation, the answers
are what the relation means (`Relation.answers_eq_meaning`).  A comparison of a variable with itself
makes a difference: of the values that are proposed to the variable, each is compared with the one that
was taken before it, whereas the meaning judges each by itself.
-/
namespace RelationSearch

/-! ## Values that are taken -/

namespace Env

variable {env e : Env Function} {x : Var} {v : Value}

/-- The comparisons of `x` with other variables allow it a value. -/
def Admits (env : Env Function) (x : Var) (v : Value) : Prop :=
  ∀ duty ∈ env.duties x, duty.other.id ≠ x.id → env.allows v duty = .ok true

theorem allows_of_allowsAt {duties : List (Duty Function)} (h : env.allowsAt v duties = .ok true) :
    ∀ duty ∈ duties, env.allows v duty = .ok true := by
  induction duties with
  | nil => nofun
  | cons duty rest ih =>
    rw [allowsAt] at h
    cases first : env.allows v duty with
    | error message => rw [first] at h; cases h
    | ok holds =>
      rw [first] at h
      cases holds with
      | false => cases h
      | true => exact List.forall_mem_cons.mpr ⟨first, ih h⟩

/-- A variable takes only values that the comparisons with other variables allow. -/
theorem of_mem_propose {values : List Value} (h : e ∈ (env.propose x values).answers.found) :
    ∃ v ∈ values, e = env.bind x v ∧ env.Admits x v := by
  induction values generalizing env with
  | nil => cases h
  | cons v rest ih =>
    rw [propose, answers_consult] at h
    cases test : env.allowsAt v (env.duties x) with
    | error message => rw [test] at h; cases h
    | ok holds =>
      rw [test] at h
      cases holds with
      | false =>
        obtain ⟨u, hu, taken⟩ := ih h
        exact ⟨u, List.mem_cons_of_mem _ hu, taken⟩
      | true =>
        rcases List.mem_cons.mp h with rfl | h
        · exact ⟨v, List.mem_cons_self .., rfl, fun duty hd _ => allows_of_allowsAt test duty hd⟩
        -- The next values are proposed while `x` holds this one, which no other variable can tell.
        · obtain ⟨u, hu, rfl, allowed⟩ := ih h
          refine ⟨u, List.mem_cons_of_mem _ hu, bind_bind env x v u, fun duty hd other => ?_⟩
          have same : (env.bind x v).value duty.other.id = env.value duty.other.id := if_neg other
          have := allowed duty hd other
          rwa [allows, same] at this

end Env

/-! ## Answers -/

namespace Relation

/-- What a search answers, if the callbacks are functions. -/
def answers (r : Relation Function) (env : Env Function) : Answers (Env Function) :=
  (r.dialogue env).answers

variable {r : Relation Function} {env e : Env Function} {n : Nat}

theorem answers_and (l : Relation Function) :
    (Relation.and n l r).answers env = (l.answers env).bind r.answers :=
  Dialogue.answers_bind r.dialogue (l.dialogue env)

theorem answers_or (l : Relation Function) :
    (Relation.or n l r).answers env = (l.answers env).append (r.answers env) :=
  Dialogue.answers_append (l.dialogue env) (r.dialogue env)

theorem length_answers_le (r : Relation Function) (env : Env Function) :
    (r.answers env).found.length ≤ r.weight := (atMost_dialogue r env).length_answers_le

/-! ### Leaves

The answers of a leaf by what its operands hold, and what they hold where it is not interrupted. -/

section Leaves

variable {x y : Var} {v u held : Value} {f : Function}
variable {values : List Value} {c : Comparison Function} {xs : List Var}

theorem answers_domain_of_bound (bound : env.value x.id = some v) :
    (Relation.domain n x values).answers env = .given (.ok (values.contains v)) env := by
  rw [answers, dialogue, bound]
  exact Dialogue.answers_given ..

theorem answers_domain_of_free (free : env.value x.id = none) :
    (Relation.domain n x values).answers env = (env.propose x values).answers := by
  rw [answers, dialogue, free]

/-- A conversion of a value that cannot be converted fails. -/
theorem answers_convert_of_error {message : String} (source : env.value x.id = some v)
    (failed : f [v] = .error message) :
    (Relation.convert n x y f).answers env = .interrupted (.failed message) := by
  rw [answers, dialogue, source, Dialogue.answers, failed]
  rfl

theorem answers_convert_of_bound (source : env.value x.id = some v) (ran : f [v] = .ok u)
    (target : env.value y.id = some held) :
    (Relation.convert n x y f).answers env = .given (.ok (held == u)) env := by
  rw [answers, dialogue, source, Dialogue.answers, ran, target]
  exact Dialogue.answers_given ..

theorem answers_convert_of_free (source : env.value x.id = some v) (ran : f [v] = .ok u)
    (target : env.value y.id = none) :
    (Relation.convert n x y f).answers env = (env.propose y [u]).answers := by
  rw [answers, dialogue, source, Dialogue.answers, ran, target]

theorem answers_compare_of_bound (left : env.value x.id = some v) (right : env.value y.id = some u) :
    (Relation.compare n x y c).answers env = .given (c.judge v u) env := by
  rw [answers, dialogue, left, right]
  dsimp only
  rw [Dialogue.answers_compare]
  rcases c.judge v u with message | _ | _ <;> rfl

theorem answers_compare_of_free (free : env.value x.id = none ∨ env.value y.id = none) :
    (Relation.compare n x y c).answers env = .once (env.defer x y c) := by
  rw [answers, dialogue]
  rcases free with free | free
  · rw [free]
    rfl
  · rw [free]
    cases env.value x.id <;> rfl

theorem answers_predicate_of_ok {vs : List Value} (operands : env.valuesOf xs = .ok vs) :
    (Relation.predicate n xs f).answers env = .given (f.holds vs) env := by
  rw [answers, dialogue, operands]
  dsimp only
  rw [Dialogue.answers_test]
  rcases f.holds vs with message | _ | _ <;> rfl

/-- A conversion that is not interrupted has a source, and a result. -/
theorem interrupted_or_converts (n : Nat) (x y : Var) (f : Function) (env : Env Function) :
    (∃ why, (Relation.convert n x y f).answers env = .interrupted why) ∨
      ∃ v u, env.value x.id = some v ∧ f [v] = .ok u := by
  cases source : env.value x.id with
  | none =>
    rw [answers, dialogue, source]
    exact .inl ⟨_, rfl⟩
  | some v =>
    cases ran : f [v] with
    | error message => exact .inl ⟨_, answers_convert_of_error source ran⟩
    | ok u => exact .inr ⟨v, u, rfl, ran⟩

/-- A predicate that is not interrupted before its test has all operands. -/
theorem interrupted_or_tests (n : Nat) (xs : List Var) (f : Function) (env : Env Function) :
    (∃ why, (Relation.predicate n xs f).answers env = .interrupted why) ∨
      ∃ vs, env.valuesOf xs = .ok vs := by
  cases operands : env.valuesOf xs with
  | error x =>
    rw [answers, dialogue, operands]
    exact .inl ⟨_, rfl⟩
  | ok vs => exact .inr ⟨vs, rfl⟩

end Leaves

/-- The values that a relation proposes to a variable: the candidates of a domain, or the result of a
conversion. -/
inductive Brings (r : Relation Function) (env : Env Function) : Var → List Value → Prop
  | candidates {n : Nat} {x : Var} {values : List Value} (hd : Relation.domain n x values ∈ r.subs) :
    Brings r env x values
  | result {n : Nat} {x y : Var} {f : Function} {v u : Value}
      (hc : Relation.convert n x y f ∈ r.subs) (held : env.value x.id = some v)
      (ran : f [v] = .ok u) : Brings r env y [u]

theorem Brings.mono {r s : Relation Function} {env : Env Function} {x : Var} {values : List Value}
    (h : s.Brings env x values) (hs : s ∈ r.subs) : r.Brings env x values := by
  cases h with
  | candidates hd => exact .candidates (mem_subs_trans hd hs)
  | result hc held ran => exact .result (mem_subs_trans hc hs) held ran

/-- What holds from an environment to itself, along values that the relation brings to unbound variables
and along comparisons that it puts off, holds from an environment to each answer there. -/
theorem along_answers {r : Relation Function} {P : Env Function → Env Function → Prop}
    {env e : Env Function} (refl : ∀ env, P env env) (trans : ∀ {a b c}, P a b → P b c → P a c)
    (take : ∀ {env : Env Function} {x values v}, r.Brings env x values → env.value x.id = none →
      v ∈ values → env.Admits x v → P env (env.bind x v))
    (defer : ∀ {n x y c}, Relation.compare n x y c ∈ r.subs → ∀ env : Env Function,
      env.value x.id = none ∨ env.value y.id = none → P env (env.defer x y c))
    (h : e ∈ (r.answers env).found) : P env e := by
  induction r generalizing env e with
  | domain n x values =>
    cases held : env.value x.id with
    | some v =>
      rw [answers_domain_of_bound held] at h
      exact (Answers.mem_given h).2 ▸ refl _
    | none =>
      rw [answers_domain_of_free held] at h
      obtain ⟨v, hv, rfl, admits⟩ := Env.of_mem_propose h
      exact take (.candidates (mem_subs_self _)) held hv admits
  | convert n x y f =>
    obtain ⟨why, broken⟩ | ⟨v, u, source, ran⟩ := interrupted_or_converts n x y f env
    · rw [broken] at h
      cases h
    cases target : env.value y.id with
    | some held =>
      rw [answers_convert_of_bound source ran target] at h
      exact (Answers.mem_given h).2 ▸ refl _
    | none =>
      rw [answers_convert_of_free source ran target] at h
      obtain ⟨v', hv, rfl, admits⟩ := Env.of_mem_propose h
      exact take (.result (mem_subs_self _) source ran) target hv admits
  | compare n x y c =>
    obtain ⟨v, u, left, right⟩ | free := env.bound_or_free x y
    · rw [answers_compare_of_bound left right] at h
      exact (Answers.mem_given h).2 ▸ refl _
    · rw [answers_compare_of_free free] at h
      exact List.mem_singleton.mp h ▸ defer (mem_subs_self _) env free
  | predicate n xs f =>
    obtain ⟨why, broken⟩ | ⟨vs, operands⟩ := interrupted_or_tests n xs f env
    · rw [broken] at h
      cases h
    · rw [answers_predicate_of_ok operands] at h
      exact (Answers.mem_given h).2 ▸ refl _
  | and n l r ihl ihr =>
    rw [answers_and] at h
    obtain ⟨d, hd, he⟩ := Answers.mem_bind h
    exact trans
      (ihl (fun hb => take (hb.mono left_sub_and)) (fun hc => defer (mem_subs_trans hc left_sub_and))
        hd)
      (ihr (fun hb => take (hb.mono right_sub_and))
        (fun hc => defer (mem_subs_trans hc right_sub_and)) he)
  | or n l r ihl ihr =>
    rw [answers_or] at h
    rcases Answers.mem_append h with h | h
    · exact ihl (fun hb => take (hb.mono left_sub_or))
        (fun hc => defer (mem_subs_trans hc left_sub_or)) h
    · exact ihr (fun hb => take (hb.mono right_sub_or))
        (fun hc => defer (mem_subs_trans hc right_sub_or)) h
  | always n => exact List.mem_singleton.mp h ▸ refl _
  | never n => cases h

/-! ## Answers and meanings -/

theorem distinct_of_mem_answers (two : r.ComparesTwo) (distinct : env.Distinct)
    (h : e ∈ (r.answers env).found) : e.Distinct := by
  refine along_answers (P := fun env e => env.Distinct → e.Distinct) (fun _ => id)
    (fun h g => g ∘ h) (fun _ _ _ _ => id) ?_ h distinct
  intro n x y c hc env _ distinct q hq
  rcases List.mem_append.mp hq with hq | hq
  · exact distinct q hq
  · obtain rfl := List.mem_singleton.mp hq
    exact two n x y c hc

/-- **The answers are what the relation means**, if all comparisons are of two variables. -/
theorem answers_eq_meaning (two : r.ComparesTwo) (distinct : env.Distinct) :
    r.answers env = r.meaning env := by
  induction r generalizing env with
  | domain n x values =>
    rw [meaning]
    cases held : env.value x.id with
    | some v => exact answers_domain_of_bound held
    | none => exact (answers_domain_of_free held).trans (Env.answers_propose (distinct.apart x) values)
  | convert n x y f =>
    rw [meaning]
    cases source : env.value x.id with
    | none =>
      rw [answers, dialogue, source]
      rfl
    | some v =>
      cases ran : f [v] with
      | error message =>
        simp only [ran]
        exact answers_convert_of_error source ran
      | ok u =>
        simp only [ran]
        cases target : env.value y.id with
        | some held => exact answers_convert_of_bound source ran target
        | none =>
          exact (answers_convert_of_free source ran target).trans
            (Env.answers_propose (distinct.apart y) [u])
  | compare n x y c =>
    obtain ⟨v, u, left, right⟩ | free := env.bound_or_free x y
    · rw [answers_compare_of_bound left right, meaning, left, right]
    · rw [answers_compare_of_free free, meaning]
      rcases free with free | free
      · rw [free]
      · rw [free]
        cases env.value x.id <;> rfl
  | predicate n xs f =>
    rw [meaning]
    cases operands : env.valuesOf xs with
    | error x =>
      rw [answers, dialogue, operands]
      rfl
    | ok vs => exact answers_predicate_of_ok operands
  | and n l r ihl ihr =>
    rw [answers_and, meaning, ← ihl (two.mono left_sub_and) distinct]
    -- What is pending after an answer of the left side is still of two variables.
    exact Answers.bind_congr fun d hd => ihr (two.mono right_sub_and)
      (distinct_of_mem_answers (two.mono left_sub_and) distinct hd)
  | or n l r ihl ihr =>
    rw [answers_or, meaning, ihl (two.mono left_sub_or) distinct, ihr (two.mono right_sub_or) distinct]
  | always | never => rfl

/-- Two values of a variable that is compared with itself: the relation means both, the search finds one. -/
example :
    let x : Var := ⟨0, "X"⟩
    let r : Relation Function :=
      .and 0 (.compare 1 x x .equality) (.domain 2 x [.bool false, .bool true])
    let env : Env Function := { value := fun _ => none, pending := [] }
    (r.meaning env).found.length = 2 ∧ (r.answers env).found.length = 1 := by
  decide +kernel

end Relation
end RelationSearch
