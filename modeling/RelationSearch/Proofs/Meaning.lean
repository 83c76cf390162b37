import RelationSearch.Proofs.Graph
import RelationSearch.Search.Function

/-!
# What a relation means

A relation, read without any search state, maps an environment to the sequence of environments that
satisfy it.  An environment holds the values of the variables and the comparisons that were left to
their operands; the sequence comes in the order of plain depth-first search, and ends either normally
or with the first interrupt (`Answers`).

`Relation.meaning` is that map, by recursion on the relation alone: no node numbers, no progress, no
generations, no watches.  A conjunction runs its right side under every answer of its left side, a
disjunction appends the answers of its sides.  A value that is offered to a variable is judged in the
environment in which the offer is made, whatever other values were offered before it (`Env.offer`).

A comparison is usually of two variables.  `Env.Distinct` says so of the comparisons that are pending,
`Relation.ComparesTwo` of those in a relation.

The callbacks are functions of their arguments (`Function`), which may fail; a failure ends the
sequence as an unbound variable does.
-/
namespace RelationSearch

/-! ## Sequences of answers -/

/-- A finite sequence that ends normally or with an interrupt. -/
structure Answers (α : Type) where
  found : List α
  /-- Why there are no more answers, if the sequence does not end normally. -/
  interrupt : Option Interrupt

namespace Answers
variable {α β : Type}

/-- No answer. -/
def none : Answers α := ⟨[], Option.none⟩

/-- One answer. -/
def once (a : α) : Answers α := ⟨[a], Option.none⟩

/-- An interrupt before any answer. -/
def interrupted (why : Interrupt) : Answers α := ⟨[], some why⟩

/-- One answer if a test holds, which may also fail. -/
def given (test : Except String Bool) (a : α) : Answers α :=
  match test with
  | .ok true => once a
  | .ok false => none
  | .error message => interrupted (.failed message)

/-- The answers of `a`, then those of `b`, unless `a` was interrupted. -/
def append (a b : Answers α) : Answers α :=
  match a.interrupt with
  | some why => ⟨a.found, some why⟩
  | Option.none => ⟨a.found ++ b.found, b.interrupt⟩

/-- The answers that `next` gives to every answer of `a` in order, up to the first interrupt. -/
def bind (a : Answers α) (next : α → Answers β) : Answers β :=
  a.found.foldr (fun e rest => (next e).append rest) ⟨[], a.interrupt⟩

@[simp] theorem none_append (b : Answers α) : none.append b = b := rfl

@[simp] theorem interrupted_append (why : Interrupt) (b : Answers α) :
    (interrupted why).append b = interrupted why := rfl

@[simp] theorem cons_append (e : α) (es : List α) (i : Option Interrupt) (b : Answers α) :
    (⟨e :: es, i⟩ : Answers α).append b =
      ⟨e :: ((⟨es, i⟩ : Answers α).append b).found, ((⟨es, i⟩ : Answers α).append b).interrupt⟩ := by
  cases i <;> rfl

theorem bind_cons (e : α) (es : List α) (i : Option Interrupt) (next : α → Answers β) :
    (⟨e :: es, i⟩ : Answers α).bind next = (next e).append ((⟨es, i⟩ : Answers α).bind next) := rfl

@[simp] theorem bind_nil (i : Option Interrupt) (next : α → Answers β) :
    (⟨[], i⟩ : Answers α).bind next = ⟨[], i⟩ := rfl

theorem bind_congr {a : Answers α} {next next' : α → Answers β}
    (same : ∀ d ∈ a.found, next d = next' d) : a.bind next = a.bind next' :=
  List.foldr_ext _ _ _ fun d hd rest => by rw [same d hd]

theorem mem_append {a b : Answers α} {e : α} (h : e ∈ (a.append b).found) :
    e ∈ a.found ∨ e ∈ b.found := by
  unfold append at h
  split at h
  · exact .inl h
  · exact List.mem_append.mp h

theorem mem_bind {a : Answers α} {next : α → Answers β} {e : β} (h : e ∈ (a.bind next).found) :
    ∃ d ∈ a.found, e ∈ (next d).found := by
  rcases a with ⟨found, i⟩
  induction found with
  | nil => cases h
  | cons d rest ih =>
    rw [bind_cons] at h
    rcases mem_append h with h | h
    · exact ⟨d, List.mem_cons_self .., h⟩
    · obtain ⟨d', hd, he⟩ := ih h
      exact ⟨d', List.mem_cons_of_mem _ hd, he⟩

/-- A test gives the environment it was made in, if it holds. -/
theorem mem_given {test : Except String Bool} {e env : α} (h : e ∈ (given test env).found) :
    test = .ok true ∧ e = env := by
  rcases test with _ | _ | _
  · cases h
  · cases h
  · exact ⟨rfl, List.mem_singleton.mp h⟩

end Answers

/-! ## Environments -/

/-- A comparison that was left to its operands. -/
structure Pending (κ : Type) where
  left : Var
  right : Var
  comparison : Comparison κ

/-- What a pending comparison asks of the values offered to one of its operands. -/
structure Duty (κ : Type) where
  /-- The other operand. -/
  other : Var
  comparison : Comparison κ
  /-- Whether the offered value is the left operand of the comparison. -/
  onLeft : Bool

/-- What a pending comparison asks of the values offered to `x`. -/
def Pending.duties {κ : Type} (p : Pending κ) (x : Var) : List (Duty κ) :=
  (if p.left.id = x.id then [{ other := p.right, comparison := p.comparison, onLeft := true }]
    else []) ++
  (if p.right.id = x.id then [{ other := p.left, comparison := p.comparison, onLeft := false }]
    else [])

/-- The values of the variables, by number, and the comparisons left to their operands, oldest
first. -/
structure Env (κ : Type) where
  value : Nat → Option Value
  pending : List (Pending κ)

/-- Whether a test holds of some arguments. -/
def Function.holds (f : Function) (args : List Value) : Except String Bool :=
  (f args).map Value.isTrue

/-- Whether a comparison holds of two values. -/
def Comparison.judge (left right : Value) : Comparison Function → Except String Bool
  | .equality => .ok (left == right)
  | .custom test => test.holds [left, right]

namespace Env

/-- The environment with a variable bound. -/
def bind {κ : Type} (env : Env κ) (x : Var) (v : Value) : Env κ :=
  { env with value := fun i => if i = x.id then some v else env.value i }

/-- The environment with one more comparison left to its operands. -/
def defer {κ : Type} (env : Env κ) (left right : Var) (comparison : Comparison κ) : Env κ :=
  { env with pending := env.pending ++ [{ left, right, comparison }] }

/-- What the pending comparisons ask of the values offered to `x`. -/
def duties {κ : Type} (env : Env κ) (x : Var) : List (Duty κ) :=
  env.pending.flatMap (·.duties x)

/-- Whether an offered value passes.  It does while the other operand is unbound. -/
def allows (env : Env Function) (v : Value) (duty : Duty Function) : Except String Bool :=
  match env.value duty.other.id with
  | none => .ok true
  | some held =>
    if duty.onLeft then duty.comparison.judge v held else duty.comparison.judge held v

/-- Whether an offered value passes at all of some duties, asked up to the first that refuses. -/
def allowsAt (env : Env Function) (v : Value) : List (Duty Function) → Except String Bool
  | [] => .ok true
  | duty :: rest =>
    match env.allows v duty with
    | .ok true => allowsAt env v rest
    | refusal => refusal

/-- One answer for each of some values that the pending comparisons let `x` take, in their order. -/
def offer (env : Env Function) (x : Var) : List Value → Answers (Env Function)
  | [] => .none
  | v :: vs => (Answers.given (env.allowsAt v (env.duties x)) (env.bind x v)).append (env.offer x vs)

/-- The values of some variables, or the first of them that is unbound. -/
def valuesOf {κ : Type} (env : Env κ) : List Var → Except Var (List Value)
  | [] => .ok []
  | x :: xs =>
    match env.value x.id with
    | none => .error x
    | some v => (env.valuesOf xs).map (v :: ·)

/-- Both operands of a comparison are bound, or one of them is not. -/
theorem bound_or_free {κ : Type} (env : Env κ) (x y : Var) :
    (∃ v u, env.value x.id = some v ∧ env.value y.id = some u) ∨
      (env.value x.id = none ∨ env.value y.id = none) := by
  cases env.value x.id with
  | none => exact .inr (.inl rfl)
  | some v =>
    cases env.value y.id with
    | none => exact .inr (.inr rfl)
    | some u => exact .inl ⟨v, u, rfl, rfl⟩

theorem bind_bind {κ : Type} (env : Env κ) (x : Var) (u v : Value) :
    (env.bind x u).bind x v = env.bind x v := by
  simp only [bind]
  congr 1
  funext i
  split <;> rfl

/-- No pending comparison compares `x` with itself. -/
def Apart {κ : Type} (env : Env κ) (x : Var) : Prop :=
  ∀ duty ∈ env.duties x, duty.other.id ≠ x.id

/-- The comparisons that are pending are of two variables. -/
def Distinct (env : Env Function) : Prop := ∀ q ∈ env.pending, q.left.id ≠ q.right.id

theorem Distinct.apart {env : Env Function} (h : env.Distinct) (x : Var) : env.Apart x := by
  intro duty hd
  obtain ⟨q, hq, hd⟩ := List.mem_flatMap.mp hd
  have two := h q hq
  unfold Pending.duties at hd
  rcases List.mem_append.mp hd with hd | hd
  · split at hd
    · rename_i here
      obtain rfl := List.mem_singleton.mp hd
      exact fun there => two (here.trans there.symm)
    · cases hd
  · split at hd
    · rename_i here
      obtain rfl := List.mem_singleton.mp hd
      exact fun there => two (there.trans here.symm)
    · cases hd

end Env

/-! ## Relations -/

namespace Relation

/-- The answers of a relation in an environment. -/
def meaning : Relation Function → Env Function → Answers (Env Function)
  | .domain _ x values, env =>
    match env.value x.id with
    | some v => .given (.ok (values.contains v)) env
    | none => env.offer x values
  | .convert n x y f, env =>
    match env.value x.id with
    | none => .interrupted (.unbound x.name (Relation.convert n x y f).bareImage)
    | some v =>
      match f [v] with
      | .error message => .interrupted (.failed message)
      | .ok result =>
        match env.value y.id with
        | some held => .given (.ok (held == result)) env
        | none => env.offer y [result]
  | .compare _ x y c, env =>
    match env.value x.id, env.value y.id with
    | some v, some u => .given (c.judge v u) env
    | _, _ => .once (env.defer x y c)
  | .predicate n xs f, env =>
    match env.valuesOf xs with
    | .error x => .interrupted (.unbound x.name (Relation.predicate n xs f).bareImage)
    | .ok values => .given (f.holds values) env
  | .and _ l r, env => (l.meaning env).bind r.meaning
  | .or _ l r, env => (l.meaning env).append (r.meaning env)
  | .always _, env => .once env
  | .never _, _ => .none

/-- Every comparison of the graph is of two variables. -/
def ComparesTwo (r : Relation Function) : Prop :=
  ∀ n x y c, Relation.compare n x y c ∈ r.subs → x.id ≠ y.id

theorem ComparesTwo.mono {r s : Relation Function} (h : r.ComparesTwo) (hs : s ∈ r.subs) :
    s.ComparesTwo :=
  fun n x y c hc => h n x y c (mem_subs_trans hc hs)

end Relation
end RelationSearch
