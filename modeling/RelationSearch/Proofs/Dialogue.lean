import RelationSearch.Proofs.Meaning

/-! # Searching as a dialogue

What can be seen of a search from outside is which callbacks it runs, with which arguments, and which
answers it gives, in which order.  A `Dialogue` is all of this at once: it asks a callback and goes on
as the reply says, or gives an answer, or is over.  The callbacks are not interpreted, so that a
dialogue is the same whatever they do, keep in mind, or fail at.

`Relation.dialogue` is the dialogue of plain depth-first search, by recursion on the relation alone.  The
right side of a conjunction is searched under every answer of the left side (`Dialogue.bind`), the right
side of a disjunction after the left side (`Dialogue.append`).  A predicate and a conversion ask once.  A
value that is offered to a variable is put to the comparisons that are pending there, oldest first,
up to the first that refuses it (`Env.consult`).

Whatever the callbacks are, there are at most `Relation.weight` answers (`Relation.atMost_dialogue`).
If they are functions, what the dialogue comes to is a sequence of answers (`Dialogue.answers`).
-/
namespace RelationSearch

variable {κ σ : Type}

/-- What a search asks and answers. -/
inductive Dialogue (κ : Type)
  /-- It runs a callback, and goes on as the reply says. -/
  | ask (k : κ) (args : List Value) (next : Except String Value → Dialogue κ)
  /-- It gives an answer; there may be more. -/
  | answer (env : Env κ) (rest : Dialogue κ)
  | ended
  | interrupted (why : Interrupt)

namespace Dialogue

/-- One answer, without a question. -/
def once (env : Env κ) : Dialogue κ := .answer env .ended

/-- One answer if something holds. -/
def given (holds : Bool) (env : Env κ) : Dialogue κ := if holds then once env else .ended

/-- Asks whether a test holds. -/
def test (k : κ) (args : List Value) (yes no : Dialogue κ) : Dialogue κ :=
  .ask k args fun
    | .ok v => if v.isTrue then yes else no
    | .error message => .interrupted (.failed message)

/-- Asks whether a comparison holds of two values.  Whether they are equal, nobody needs to be asked. -/
def compare (left right : Value) (yes no : Dialogue κ) : Comparison κ → Dialogue κ
  | .equality => if left == right then yes else no
  | .custom k => test k [left, right] yes no

/-- One dialogue, and after its end another one. -/
def append : Dialogue κ → Dialogue κ → Dialogue κ
  | .ask k args next, other => .ask k args fun reply => (next reply).append other
  | .answer env rest, other => .answer env (rest.append other)
  | .ended, other => other
  | .interrupted why, _ => .interrupted why

/-- A dialogue with every answer continued. -/
def bind (next : Env κ → Dialogue κ) : Dialogue κ → Dialogue κ
  | .ask k args rest => .ask k args fun reply => (rest reply).bind next
  | .answer env rest => (next env).append (rest.bind next)
  | .ended => .ended
  | .interrupted why => .interrupted why

/-! ## The number of answers -/

/-- Whatever the replies, there are at most so many answers. -/
inductive AtMost : Nat → Dialogue κ → Prop
  | ask {m : Nat} {k : κ} {args : List Value} {next : Except String Value → Dialogue κ}
      (every : ∀ reply, AtMost m (next reply)) : AtMost m (.ask k args next)
  | answer {m : Nat} {env : Env κ} {rest : Dialogue κ} (few : AtMost m rest) :
    AtMost (m + 1) (.answer env rest)
  | ended {m : Nat} : AtMost m .ended
  | interrupted {m : Nat} {why : Interrupt} : AtMost m (.interrupted why)

namespace AtMost

variable {d a b : Dialogue κ} {m m' : Nat}

theorem mono (h : d.AtMost m) (le : m ≤ m') : d.AtMost m' := by
  induction h generalizing m' with
  | ask every ih => exact .ask fun reply => ih reply le
  | answer few ih =>
    obtain ⟨k, rfl⟩ : ∃ k, m' = k + 1 := ⟨m' - 1, by omega⟩
    exact .answer (ih (by omega))
  | ended => exact .ended
  | interrupted => exact .interrupted

theorem append (ha : a.AtMost m) (hb : b.AtMost m') : (a.append b).AtMost (m + m') := by
  induction ha with
  | ask every ih => exact .ask ih
  | answer few ih => exact Nat.add_right_comm _ _ _ ▸ .answer ih
  | ended => exact hb.mono (Nat.le_add_left ..)
  | interrupted => exact .interrupted

theorem bind {next : Env κ → Dialogue κ} (h : d.AtMost m) (hn : ∀ env, (next env).AtMost m') :
    (d.bind next).AtMost (m * m') := by
  induction h with
  | ask every ih => exact .ask ih
  | answer few ih =>
    rw [Nat.add_mul, Nat.one_mul, Nat.add_comm]
    exact (hn _).append ih
  | ended => exact .ended
  | interrupted => exact .interrupted

theorem once (env : Env κ) : (Dialogue.once env).AtMost 1 := .answer .ended

theorem given (holds : Bool) (env : Env κ) : (Dialogue.given holds env).AtMost 1 := by
  cases holds with
  | true => exact .once env
  | false => exact .ended

theorem test {k : κ} {args : List Value} (ha : a.AtMost m) (hb : b.AtMost m) :
    (Dialogue.test k args a b).AtMost m := by
  refine .ask fun reply => ?_
  rcases reply with message | v
  · exact .interrupted
  · dsimp only
    split <;> assumption

theorem compare {u v : Value} (ha : a.AtMost m) (hb : b.AtMost m) (c : Comparison κ) :
    (Dialogue.compare u v a b c).AtMost m := by
  cases c with
  | equality =>
    rw [Dialogue.compare]
    split <;> assumption
  | custom k => exact ha.test hb

end AtMost

end Dialogue

/-! ## Offers -/

namespace Env

/-- Puts a value to some duties, up to the first that refuses it.  A duty is silent while its other
operand is unbound. -/
def consult (env : Env κ) (v : Value) (yes no : Dialogue κ) : List (Duty κ) → Dialogue κ
  | [] => yes
  | duty :: rest =>
    match env.value duty.other.id with
    | none => env.consult v yes no rest
    | some held =>
      if duty.onLeft then Dialogue.compare v held (env.consult v yes no rest) no duty.comparison
      else Dialogue.compare held v (env.consult v yes no rest) no duty.comparison

/-- One answer for each of some values that the pending comparisons let `x` take.  A value is put to them
while `x` holds the one taken before it.  Only a comparison of `x` with itself can tell
(`propose_cons_of_apart`). -/
def propose (x : Var) : List Value → Env κ → Dialogue κ
  | [], _ => .ended
  | v :: vs, env =>
    env.consult v (.answer (env.bind x v) (propose x vs (env.bind x v))) (propose x vs env)
      (env.duties x)

variable {env : Env κ} {x : Var} {yes no : Dialogue κ} {m : Nat}

/-- Where no comparison is of `x` with itself, it does not matter which value `x` holds. -/
theorem Apart.consult_bind (h : env.Apart x) (u v : Value) :
    (env.bind x u).consult v yes no ((env.bind x u).duties x) =
      env.consult v yes no (env.duties x) := by
  change (env.bind x u).consult v yes no (env.duties x) = _
  unfold Apart at h
  generalize env.duties x = duties at h ⊢
  induction duties with
  | nil => rfl
  | cons duty rest ih =>
    have other : (env.bind x u).value duty.other.id = env.value duty.other.id :=
      if_neg (h duty (List.mem_cons_self ..))
    rw [consult, consult, other, ih fun d hd => h d (List.mem_cons_of_mem _ hd)]

theorem Apart.propose_bind (h : env.Apart x) (u : Value) (vs : List Value) :
    (env.bind x u).propose x vs = env.propose x vs := by
  induction vs generalizing u with
  | nil => rfl
  | cons v vs ih => rw [propose, propose, h.consult_bind, bind_bind, ih u]

/-- Each value is then put to the comparisons in the environment in which the values are proposed. -/
theorem propose_cons_of_apart (h : env.Apart x) (v : Value) (vs : List Value) :
    env.propose x (v :: vs) =
      env.consult v (.answer (env.bind x v) (env.propose x vs)) (env.propose x vs)
        (env.duties x) := by
  rw [propose, h.propose_bind]

theorem atMost_consult (v : Value) (hy : yes.AtMost m) (hn : no.AtMost m) (duties : List (Duty κ)) :
    (env.consult v yes no duties).AtMost m := by
  induction duties with
  | nil => exact hy
  | cons duty rest ih =>
    rw [consult]
    split
    · exact ih
    · split <;> exact ih.compare hn _

theorem atMost_propose (x : Var) (vs : List Value) (env : Env κ) :
    (env.propose x vs).AtMost vs.length := by
  induction vs generalizing env with
  | nil => exact .ended
  | cons v vs ih => exact atMost_consult v (.answer (ih _)) ((ih _).mono (Nat.le_succ _)) _

end Env

/-! ## Relations -/

namespace Relation

/-- The dialogue of a plain depth-first search. -/
def dialogue : Relation κ → Env κ → Dialogue κ
  | .domain _ x values, env =>
    match env.value x.id with
    | some v => .given (values.contains v) env
    | none => env.propose x values
  | .convert n x y f, env =>
    match env.value x.id with
    | none => .interrupted (.unbound x.name (Relation.convert n x y f).bareImage)
    | some v => .ask f [v] fun
      | .error message => .interrupted (.failed message)
      | .ok result =>
        match env.value y.id with
        | some held => .given (held == result) env
        | none => env.propose y [result]
  | .compare _ x y c, env =>
    match env.value x.id, env.value y.id with
    | some v, some u => Dialogue.compare v u (.once env) .ended c
    | _, _ => .once (env.defer x y c)
  | .predicate n xs f, env =>
    match env.valuesOf xs with
    | .error x => .interrupted (.unbound x.name (Relation.predicate n xs f).bareImage)
    | .ok values => .test f values (.once env) .ended
  | .and _ l r, env => (l.dialogue env).bind r.dialogue
  | .or _ l r, env => (l.dialogue env).append (r.dialogue env)
  | .always _, env => .once env
  | .never _, _ => .ended

theorem atMost_dialogue (r : Relation κ) (env : Env κ) : (r.dialogue env).AtMost r.weight := by
  induction r generalizing env with
  | domain n x values =>
    rw [dialogue, weight]
    split
    · exact (Dialogue.AtMost.given ..).mono (Nat.le_max_left ..)
    · exact (Env.atMost_propose ..).mono (Nat.le_max_right ..)
  | convert n x y f =>
    rw [dialogue, weight]
    split
    · exact .interrupted
    · refine .ask fun reply => ?_
      split
      · exact .interrupted
      · split
        · exact .given ..
        · exact Env.atMost_propose y [_] env
  | compare n x y c =>
    rw [dialogue, weight]
    split
    · exact (Dialogue.AtMost.once env).compare .ended c
    · exact .once _
  | predicate n xs f =>
    rw [dialogue, weight]
    split
    · exact .interrupted
    · exact (Dialogue.AtMost.once env).test .ended
  | and n l r ihl ihr =>
    exact ((ihl env).bind ihr).mono (Nat.mul_le_mul (Nat.le_succ _) (Nat.le_succ _))
  | or n l r ihl ihr => exact (ihl env).append (ihr env)
  | always => exact .once env
  | never => exact .ended

end Relation

/-! ## Functions as callbacks -/

namespace Dialogue

variable {a b yes no : Dialogue Function}

/-- The answers of a dialogue, if the callbacks are functions. -/
def answers : Dialogue Function → Answers (Env Function)
  | .ask f args next => (next (f args)).answers
  | .answer env rest => ⟨env :: rest.answers.found, rest.answers.interrupt⟩
  | .ended => .none
  | .interrupted why => .interrupted why

theorem AtMost.length_answers_le {m : Nat} (h : a.AtMost m) : a.answers.found.length ≤ m := by
  induction h with
  | ask every ih => exact ih _
  | answer few ih => exact Nat.succ_le_succ ih
  | ended | interrupted => exact Nat.zero_le _

theorem answers_append (a b : Dialogue Function) :
    (a.append b).answers = a.answers.append b.answers := by
  induction a with
  | ask f args next ih => exact ih _
  | answer env rest ih =>
    rw [append, answers, answers, ih]
    exact (Answers.cons_append env rest.answers.found rest.answers.interrupt b.answers).symm
  | ended => exact (Answers.none_append _).symm
  | interrupted why => rfl

theorem answers_bind (next : Env Function → Dialogue Function) (a : Dialogue Function) :
    (a.bind next).answers = a.answers.bind fun env => (next env).answers := by
  induction a with
  | ask f args rest ih => exact ih _
  | answer env rest ih => rw [bind, answers_append, ih, answers, Answers.bind_cons]
  | ended | interrupted => rfl

theorem answers_test (f : Function) (args : List Value) :
    (test f args yes no).answers = match f.holds args with
      | .ok true => yes.answers
      | .ok false => no.answers
      | .error message => .interrupted (.failed message) := by
  rw [test, answers, Function.holds]
  rcases f args with message | v
  · rfl
  · simp only [Except.map]
    cases v.isTrue <;> rfl

theorem answers_compare (u v : Value) (c : Comparison Function) :
    (compare u v yes no c).answers = match c.judge u v with
      | .ok true => yes.answers
      | .ok false => no.answers
      | .error message => .interrupted (.failed message) := by
  cases c with
  | equality =>
    simp only [compare, Comparison.judge]
    cases u == v <;> rfl
  | custom f => exact answers_test f [u, v]

theorem answers_given (holds : Bool) (env : Env Function) :
    (given holds env).answers = .given (.ok holds) env := by
  cases holds <;> rfl

end Dialogue

theorem Env.answers_consult {yes no : Dialogue Function} (env : Env Function) (v : Value)
    (duties : List (Duty Function)) :
    (env.consult v yes no duties).answers = match env.allowsAt v duties with
      | .ok true => yes.answers
      | .ok false => no.answers
      | .error message => .interrupted (.failed message) := by
  induction duties with
  | nil => rfl
  | cons duty rest ih =>
    rw [consult, allowsAt, allows]
    cases env.value duty.other.id with
    | none => exact ih
    | some held =>
      cases side : duty.onLeft with
      | true =>
        simp only [if_true, Dialogue.answers_compare]
        rcases duty.comparison.judge v held with message | _ | _
        · rfl
        · rfl
        · exact ih
      | false =>
        simp only [Bool.false_eq_true, if_false, Dialogue.answers_compare]
        rcases duty.comparison.judge held v with message | _ | _
        · rfl
        · rfl
        · exact ih

/-- Where no comparison is of `x` with itself, what comes of proposing values is what the values give each
by itself. -/
theorem Env.answers_propose {env : Env Function} {x : Var} (apart : env.Apart x) (vs : List Value) :
    (env.propose x vs).answers = env.offer x vs := by
  induction vs with
  | nil => rfl
  | cons v vs ih =>
    rw [propose_cons_of_apart apart, answers_consult, Dialogue.answers, ih, offer]
    rcases env.allowsAt v (env.duties x) with message | _ | _ <;> rfl

end RelationSearch
