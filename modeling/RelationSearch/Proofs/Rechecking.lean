import RelationSearch.Proofs.Algebra

/-! # Generating and checking agree

A relation without disjunctions accepts what it generates: searched again where it has just found a
solution, it holds once and binds nothing (`Relation.answers_of_kept`).  Followed by a copy of itself, a
relation therefore finds the same solutions in the same order (`Relation.rechecking_agrees`).

Each kind of leaf has two ways to hold, and takes one or the other depending on which variables are bound.
What both ways have in common is what a leaf that has held leaves behind (`Relation.Kept`): the domain's
variable has one of its values, the conversion's target has the converted value, the comparison is upheld,
the predicate's test held of its operands.  An answer of a relation keeps all of this
(`Relation.kept_of_mem_answers`), whatever is bound later; and where it is kept, the copy only has to check.

A disjunction may hold in several ways where it has been satisfied in one, and is left out.
-/
namespace RelationSearch

open Act RelationSearch.Relation

variable {σ : Type} {good : Value → Prop} {env e : Env Function}

namespace Relation

variable {r r' l s : Relation Function} {n a : Nat}

/-- No part of the relation is a disjunction. -/
def OrFree (r : Relation Function) : Prop := ∀ n a b, Relation.or n a b ∉ r.subs

theorem OrFree.mono (h : r.OrFree) (hs : s ∈ r.subs) : s.OrFree :=
  fun n a b hm => h n a b (mem_subs_trans hm hs)

/-! ## What a relation leaves behind -/

/-- The environment has what the relation leaves behind when it has held. -/
def Kept (env : Env Function) : Relation Function → Prop
  | .domain _ x values => ∃ v, env.value x.id = some v ∧ values.contains v = true
  | .convert _ x y f => ∃ v u held, env.value x.id = some v ∧ f [v] = .ok u ∧
      env.value y.id = some held ∧ (held == u) = true
  | .compare _ x y c => env.Upholds ⟨x, y, c⟩
  | .predicate _ xs f => ∃ values, env.valuesOf xs = .ok values ∧ f.holds values = .ok true
  | .and _ l r => l.Kept env ∧ r.Kept env
  | .or _ l r => l.Kept env ∨ r.Kept env
  | .always _ => True
  | .never _ => False

/-- What is left behind stays, whatever is bound later. -/
theorem Kept.mono (sustains : env.Sustains e) (h : r.Kept env) : r.Kept e := by
  induction r with
  | domain n x values =>
    obtain ⟨v, held, among⟩ := h
    exact ⟨v, sustains.value _ _ held, among⟩
  | convert n x y f =>
    obtain ⟨v, u, held, source, ran, target, same⟩ := h
    exact ⟨v, u, held, sustains.value _ _ source, ran, sustains.value _ _ target, same⟩
  | compare n x y c => exact sustains.upholds _ h
  | predicate n xs f =>
    obtain ⟨values, operands, test⟩ := h
    exact ⟨values, Env.valuesOf_of_agrees sustains.value operands, test⟩
  | and n l r ihl ihr => exact h.imp ihl ihr
  | or n l r ihl ihr => exact h.imp ihl ihr
  | always | never => exact h

/-- **An answer has what the relation leaves behind**: what a leaf has bound passes the leaf's own check,
as long as values equal themselves. -/
theorem kept_of_mem_answers (two : r.ComparesTwo) (typed : r.Typed good)
    (reflexive : ∀ v, good v → (v == v) = true) (start : env.Good good)
    (h : e ∈ (r.answers env).found) : r.Kept e := by
  induction r generalizing env e with
  | domain n x values =>
    cases held : env.value x.id with
    | some v =>
      rw [answers_domain_of_bound held] at h
      obtain ⟨among, rfl⟩ := Answers.mem_given h
      exact ⟨v, held, Except.ok.inj among⟩
    | none =>
      rw [answers_domain_of_free held] at h
      obtain ⟨v, hv, rfl, -⟩ := Env.of_mem_propose h
      have itself := reflexive v (typed.candidates _ _ _ (mem_subs_self _) v hv)
      exact ⟨v, Env.value_bind_self .., List.contains_iff_exists_mem_beq.mpr ⟨v, hv, itself⟩⟩
  | convert n x y f =>
    obtain ⟨why, broken⟩ | ⟨v, u, source, ran⟩ := interrupted_or_converts n x y f env
    · rw [broken] at h
      cases h
    cases target : env.value y.id with
    | some held =>
      rw [answers_convert_of_bound source ran target] at h
      obtain ⟨same, rfl⟩ := Answers.mem_given h
      exact ⟨v, u, held, source, ran, target, Except.ok.inj same⟩
    | none =>
      rw [answers_convert_of_free source ran target] at h
      obtain ⟨u', hu, rfl, admits⟩ := Env.of_mem_propose h
      have later := (Env.Sustains.bind target admits).value _ _ source
      obtain rfl := List.mem_singleton.mp hu
      have itself := reflexive u'
        (typed.conversions _ _ _ _ (mem_subs_self _) _ _ (start _ _ source) ran)
      exact ⟨v, u', u', later, ran, Env.value_bind_self .., itself⟩
  | compare n x y c => exact upholds_of_mem_compare (fun _ => two n x y c (mem_subs_self _)) h
  | predicate n xs f =>
    obtain ⟨why, broken⟩ | ⟨values, operands⟩ := interrupted_or_tests n xs f env
    · rw [broken] at h
      cases h
    · rw [answers_predicate_of_ok operands] at h
      obtain ⟨test, rfl⟩ := Answers.mem_given h
      exact ⟨values, operands, test⟩
  | and n l r ihl ihr =>
    rw [answers_and] at h
    obtain ⟨d, hd, he⟩ := Answers.mem_bind h
    have left := ihl (two.mono left_sub_and) (typed.mono left_sub_and) start hd
    have between := good_of_mem_answers (typed.mono left_sub_and) start hd
    exact ⟨left.mono (sustains_of_mem_answers he),
      ihr (two.mono right_sub_and) (typed.mono right_sub_and) between he⟩
  | or n l r ihl ihr =>
    rw [answers_or] at h
    rcases Answers.mem_append h with h | h
    · exact .inl (ihl (two.mono left_sub_or) (typed.mono left_sub_or) start h)
    · exact .inr (ihr (two.mono right_sub_or) (typed.mono right_sub_or) start h)
  | always n => trivial
  | never n => cases h

/-! ## Checking -/

/-- **Where all is left behind, a relation without disjunctions only checks**: it holds once, and binds
nothing. -/
theorem answers_of_kept (orFree : r.OrFree) (kept : r.Kept e) :
    ∃ e', r.answers e = .once e' ∧ e'.value = e.value := by
  induction r generalizing e with
  | domain n x values =>
    obtain ⟨v, held, among⟩ := kept
    rw [answers_domain_of_bound held, among]
    exact ⟨e, rfl, rfl⟩
  | convert n x y f =>
    obtain ⟨v, u, held, source, ran, target, same⟩ := kept
    rw [answers_convert_of_bound source ran target, same]
    exact ⟨e, rfl, rfl⟩
  | compare n x y c =>
    obtain ⟨v, u, left, right⟩ | free := e.bound_or_free x y
    · have holds : c.judge v u = .ok true := kept.holds v u left right
      rw [answers_compare_of_bound left right, holds]
      exact ⟨e, rfl, rfl⟩
    -- A comparison that still waits for an operand is put off once more.
    · rw [answers_compare_of_free free]
      exact ⟨_, rfl, rfl⟩
  | predicate n xs f =>
    obtain ⟨values, operands, test⟩ := kept
    rw [answers_predicate_of_ok operands, test]
    exact ⟨e, rfl, rfl⟩
  | and n l r ihl ihr =>
    obtain ⟨d, left, same⟩ := ihl (orFree.mono left_sub_and) kept.1
    have later : e.Sustains d := sustains_of_mem_answers (by rw [left]; exact List.mem_singleton_self d)
    obtain ⟨e', right, same'⟩ := ihr (orFree.mono right_sub_and) (kept.2.mono later)
    exact ⟨e', by rw [answers_and, left, Answers.once_bind, right], same'.trans same⟩
  | or n l r => exact absurd (mem_subs_self _) (orFree n l r)
  | always n => exact ⟨e, rfl, rfl⟩
  | never n => exact kept.elim

/-- After a relation, its copy finds what the relation has found, and nothing else. -/
theorem answers_rechecked (orFree : r.OrFree) (two : r.ComparesTwo) (typed : r.Typed good)
    (reflexive : ∀ v, good v → (v == v) = true) (start : env.Good good) (same : r'.answers = r.answers)
    (normal : (r.answers env).interrupt = none) :
    ((Relation.and a r r').answers env).interrupt = none ∧
      ((Relation.and a r r').answers env).found.map Env.value = (r.answers env).found.map Env.value := by
  have accepted : ∀ e ∈ (r.answers env).found,
      ∃ e', r'.answers e = .once e' ∧ e'.value = e.value := by
    intro e he
    rw [same]
    exact answers_of_kept orFree (kept_of_mem_answers two typed reflexive start he)
  have ends : ((r.answers env).bind r'.answers).interrupt = none := by
    refine Answers.interrupt_bind.mpr ⟨normal, fun e he => ?_⟩
    obtain ⟨e', once, -⟩ := accepted e he
    rw [once]
    rfl
  rw [answers_and]
  refine ⟨ends, ?_⟩
  rw [Answers.found_bind ends]
  generalize (r.answers env).found = found at accepted
  induction found with
  | nil => rfl
  | cons e found ih =>
    obtain ⟨here, later⟩ := List.forall_mem_cons.mp accepted
    obtain ⟨e', once, kept⟩ := here
    rw [List.flatMap_cons, List.map_append, ih later, once, List.map_cons, ← kept]
    rfl

variable {fuel fuel' : Nat} {solutions : List (Nat → Option Value)} {w v : World Function σ}

/-- **Generating and checking agree.**  Let a relation without disjunctions, whose comparisons are of two
variables and whose values equal themselves, come to its end without an error.  Then the conjunction of it
with a copy of it comes to its end without an error, from the same environment, and finds the same
solutions in the same order: the copy accepts once what the relation has generated. -/
theorem rechecking_agrees (copy : r'.bare = r.bare) (orFree : r.OrFree) (two : r.ComparesTwo)
    (typed : r.Typed good) (reflexive : ∀ v, good v → (v == v) = true) (start : env.Good good)
    (ready : r.Ready w) (shows : w.Shows env) (enumerates : r.Enumerates fuel solutions w)
    (both : (Relation.and a r r').Primed fuel' env v) :
    (Relation.and a r r').Enumerates fuel' solutions v := by
  obtain ⟨normal, rfl⟩ := enumerates.eq_answers (both.coherent.mono left_sub_and) both.separated.2.1
    ready shows
  obtain ⟨ends, values⟩ := answers_rechecked (a := a) orFree two typed reflexive start
    (Equated.copy copy).answers normal
  rw [← values]
  exact (Resumes.of_ready both.coherent both.separated both.enough both.ready
    both.shows).enumerates ends

/-- A bit that is listed twice, its negation, and a comparison of the two: checked again, the three
solutions come as they came. -/
theorem negated_bits_rechecked :
    let x : Var := ⟨0, "X"⟩
    let y : Var := ⟨1, "Y"⟩
    let negation : Function := fun args => .ok (.bool (args == [.bool false]))
    let notBoth : Function := fun args => .ok (.bool (!(args == [.bool true, .bool true])))
    let r (n : Nat) : Relation Function :=
      .and n (.domain (n + 1) x [.bool false, .bool true, .bool false])
        (.and (n + 2) (.convert (n + 3) x y negation) (.compare (n + 4) x y (.custom notBoth)))
    let w : World Function Unit := { client := () }
    ∃ solutions, solutions.length = 3 ∧ (r 1).Enumerates 64 solutions w ∧
      (Relation.and 0 (r 1) (r 6)).Enumerates 1024 solutions w := by
  intro x y negation notBoth r w
  let env : Env Function := { value := fun _ => none, pending := [] }
  let good : Value → Prop := fun v => ∃ b, v = .bool b
  have orFree : (r 1).OrFree := by
    intro n a b hm
    simp [r, subs] at hm
  have two : (r 1).ComparesTwo := by
    intro n u v c hm
    simp only [r, subs, List.mem_cons, List.mem_append, List.not_mem_nil, reduceCtorEq, or_false,
      false_or, compare.injEq] at hm
    obtain ⟨-, rfl, rfl, -⟩ := hm
    decide
  have typed : (r 1).Typed good := by
    constructor
    · intro n u values hm v hv
      simp only [r, subs, List.mem_cons, List.mem_append, List.not_mem_nil, reduceCtorEq, or_false,
        false_or, domain.injEq] at hm
      obtain ⟨-, -, rfl⟩ := hm
      simp only [List.mem_cons, List.not_mem_nil, or_false] at hv
      rcases hv with rfl | rfl | rfl <;> exact ⟨_, rfl⟩
    · intro n u v f hm a b _ ran
      simp only [r, subs, List.mem_cons, List.mem_append, List.not_mem_nil, reduceCtorEq, or_false,
        false_or, convert.injEq] at hm
      obtain ⟨-, -, -, rfl⟩ := hm
      exact ⟨_, (Except.ok.inj ran).symm⟩
  have reflexive : ∀ v, good v → (v == v) = true := by
    rintro v ⟨b, rfl⟩
    cases b <;> rfl
  have unbound : env.Good good := fun i v held => by cases held
  have resumes : (r 1).Resumes 64 w ((r 1).answers env) w :=
    .of_ready (.of_nodup (by decide)) ⟨by decide, trivial, by decide, trivial, trivial⟩ (by decide)
      (.blank _ _) (.blank ())
  have enumerates := resumes.enumerates (by decide +kernel)
  refine ⟨_, ?_, enumerates, ?_⟩
  · decide +kernel
  · refine rechecking_agrees rfl orFree two typed reflexive unbound (.blank _ _) (.blank ()) enumerates
      ⟨.of_nodup (by decide), ?_, by decide, .blank _ _, .blank ()⟩
    have each (n : Nat) (apart : ∀ m ∈ [n + 1], m ∉ [n + 2, n + 3, n + 4])
        (apart' : ∀ m ∈ [n + 3], m ∉ [n + 4]) : (r n).Separated :=
      ⟨apart, trivial, apart', trivial, trivial⟩
    exact ⟨by decide, each 1 (by decide) (by decide), each 6 (by decide) (by decide)⟩

end Relation
end RelationSearch
