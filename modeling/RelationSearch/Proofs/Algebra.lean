import RelationSearch.Proofs.Reordering

/-! # The algebra of conjunction and disjunction

Conjunction and disjunction are associative; the relation that holds once is neutral for the one, and the
relation that never holds for the other; a conjunction whose left side never holds never holds; and the
left side of a conjunction distributes over a disjunction (`Relation.Equated`).  Relations that are equal by
these laws go in step (`InStep`): call by call they come to the same answers in the same environments, leave
the callbacks with the same in mind, and end alike.

The two sides of a law pause in conjunctions and disjunctions of different shapes, and rewind different
nodes at different times.  None of this is left in the dialogues that they hold, which are equal: dialogues
obey the laws of sequences of sequences (`Dialogue.bind_assoc`, `Dialogue.append_bind`), and what goes in
step is whatever still holds the same dialogue (`InStep.of_follows`).

Hence a conjunction of several relations does not depend on how it is bracketed, nor on the relations among
them that hold once (`Relation.Equated.of_conjuncts`); and likewise for disjunctions.
-/
namespace RelationSearch

open Act RelationSearch.Relation

variable {κ σ : Type}

/-! ## Dialogues one after the other -/

namespace Dialogue

variable (a b c d : Dialogue κ) (f g : Env κ → Dialogue κ)

theorem append_ended : d.append .ended = d := by
  induction d with
  | ask k args next ih => exact congrArg _ (funext ih)
  | answer env rest ih => exact congrArg _ ih
  | ended | interrupted => rfl

theorem append_assoc : (a.append b).append c = a.append (b.append c) := by
  induction a with
  | ask k args next ih => exact congrArg _ (funext ih)
  | answer env rest ih => exact congrArg _ ih
  | ended | interrupted => rfl

theorem append_bind : (a.append b).bind f = (a.bind f).append (b.bind f) := by
  induction a with
  | ask k args next ih => exact congrArg _ (funext ih)
  | answer env rest ih => rw [append, bind, ih, bind, append_assoc]
  | ended | interrupted => rfl

theorem bind_assoc : (d.bind f).bind g = d.bind fun env => (f env).bind g := by
  induction d with
  | ask k args next ih => exact congrArg _ (funext ih)
  | answer env rest ih => rw [bind, append_bind, ih, bind]
  | ended | interrupted => rfl

theorem once_bind (env : Env κ) : (once env).bind f = f env := append_ended _

theorem bind_once : d.bind once = d := by
  induction d with
  | ask k args next ih => exact congrArg _ (funext ih)
  | answer env rest ih => rw [bind, ih]; rfl
  | ended | interrupted => rfl

end Dialogue

/-! ## The laws -/

namespace Relation

variable {r s : Relation κ}

/-- The relations are equal by the laws of conjunction and disjunction.  The nodes do not matter: what is
written twice may be two copies. -/
inductive Equated : Relation κ → Relation κ → Prop
  | copy {r s : Relation κ} (same : r.bare = s.bare) : Equated r s
  | symm {r s : Relation κ} (h : Equated r s) : Equated s r
  | trans {r s t : Relation κ} (h : Equated r s) (g : Equated s t) : Equated r t
  | and {l l' r r' : Relation κ} (m n : Nat) (left : Equated l l') (right : Equated r r') :
    Equated (.and m l r) (.and n l' r')
  | or {l l' r r' : Relation κ} (m n : Nat) (left : Equated l l') (right : Equated r r') :
    Equated (.or m l r) (.or n l' r')
  | and_assoc (m n m' n' : Nat) (a b c : Relation κ) :
    Equated (.and m (.and n a b) c) (.and m' a (.and n' b c))
  | or_assoc (m n m' n' : Nat) (a b c : Relation κ) :
    Equated (.or m (.or n a b) c) (.or m' a (.or n' b c))
  | always_and (m n : Nat) (a : Relation κ) : Equated (.and m (.always n) a) a
  | and_always (m n : Nat) (a : Relation κ) : Equated (.and m a (.always n)) a
  | never_or (m n : Nat) (a : Relation κ) : Equated (.or m (.never n) a) a
  | or_never (m n : Nat) (a : Relation κ) : Equated (.or m a (.never n)) a
  | never_and (m n n' : Nat) (a : Relation κ) : Equated (.and m (.never n) a) (.never n')
  | or_and (m n m' k k' : Nat) (a b c : Relation κ) :
    Equated (.and m (.or n a b) c) (.or m' (.and k a c) (.and k' b c))

/-- **The laws hold of dialogues.** -/
theorem Equated.dialogue (h : Equated r s) : r.dialogue = s.dialogue := by
  induction h with
  | copy same => exact dialogue_of_bare same
  | symm _ ih => exact ih.symm
  | trans _ _ first second => exact first.trans second
  | and m n _ _ left right | or m n _ _ left right =>
    funext env
    rw [Relation.dialogue, Relation.dialogue, left, right]
  | and_assoc => funext env; exact Dialogue.bind_assoc ..
  | or_assoc => funext env; exact Dialogue.append_assoc ..
  | always_and => funext env; exact Dialogue.once_bind ..
  | and_always => funext env; exact Dialogue.bind_once _
  | never_or | never_and => rfl
  | or_never => funext env; exact Dialogue.append_ended _
  | or_and => funext env; exact Dialogue.append_bind ..

theorem Equated.answers {r s : Relation Function} (h : Equated r s) : r.answers = s.answers := by
  funext env
  rw [Relation.answers, Relation.answers, h.dialogue]

/-! ## Several relations -/

/-- The relations that a conjunction joins, however it is bracketed, without those that hold once. -/
def conjuncts : Relation κ → List (Relation κ)
  | .and _ l r => l.conjuncts ++ r.conjuncts
  | .always _ => []
  | r => [r]

/-- The relations that a disjunction joins, however it is bracketed, without those that never hold. -/
def disjuncts : Relation κ → List (Relation κ)
  | .or _ l r => l.disjuncts ++ r.disjuncts
  | .never _ => []
  | r => [r]

/-- The conjunction of some relations, bracketed from the right. -/
def conjoined (rs : List (Relation κ)) : Relation κ := rs.foldr (.and 0) (.always 0)

/-- The disjunction of some relations, bracketed from the right. -/
def disjoined (rs : List (Relation κ)) : Relation κ := rs.foldr (.or 0) (.never 0)

namespace Equated

theorem refl (r : Relation κ) : Equated r r := .copy rfl

theorem conjoined_append (rs ss : List (Relation κ)) :
    Equated (conjoined (rs ++ ss)) (.and 0 (conjoined rs) (conjoined ss)) := by
  induction rs with
  | nil => exact (always_and ..).symm
  | cons r rs ih => exact (Equated.and 0 0 (.refl r) ih).trans (and_assoc ..).symm

theorem disjoined_append (rs ss : List (Relation κ)) :
    Equated (disjoined (rs ++ ss)) (.or 0 (disjoined rs) (disjoined ss)) := by
  induction rs with
  | nil => exact (never_or ..).symm
  | cons r rs ih => exact (Equated.or 0 0 (.refl r) ih).trans (or_assoc ..).symm

/-- Every conjunction can be bracketed from the right. -/
theorem conjoined_conjuncts (r : Relation κ) : Equated r (conjoined r.conjuncts) := by
  induction r with
  | and n l r ihl ihr => exact (Equated.and n 0 ihl ihr).trans (conjoined_append ..).symm
  | always => exact .copy rfl
  | domain | convert | compare | predicate | or | never => exact (and_always ..).symm

/-- Every disjunction can be bracketed from the right. -/
theorem disjoined_disjuncts (r : Relation κ) : Equated r (disjoined r.disjuncts) := by
  induction r with
  | or n l r ihl ihr => exact (Equated.or n 0 ihl ihr).trans (disjoined_append ..).symm
  | never => exact .copy rfl
  | domain | convert | compare | predicate | and | always => exact (or_never ..).symm

theorem bare_conjoined (rs : List (Relation κ)) :
    (conjoined rs).bare = conjoined (rs.map bare) := by
  induction rs with
  | nil => rfl
  | cons r rs ih => exact congrArg (Relation.and 0 r.bare) ih

theorem bare_disjoined (rs : List (Relation κ)) :
    (disjoined rs).bare = disjoined (rs.map bare) := by
  induction rs with
  | nil => rfl
  | cons r rs ih => exact congrArg (Relation.or 0 r.bare) ih

/-- **Brackets do not matter** in a conjunction, nor do relations that hold once. -/
theorem of_conjuncts (same : r.conjuncts.map bare = s.conjuncts.map bare) : Equated r s := by
  have copies : Equated (conjoined r.conjuncts) (conjoined s.conjuncts) :=
    .copy (by rw [bare_conjoined, bare_conjoined, same])
  exact ((conjoined_conjuncts r).trans copies).trans (conjoined_conjuncts s).symm

/-- **Brackets do not matter** in a disjunction, nor do relations that never hold. -/
theorem of_disjuncts (same : r.disjuncts.map bare = s.disjuncts.map bare) : Equated r s := by
  have copies : Equated (disjoined r.disjuncts) (disjoined s.disjuncts) :=
    .copy (by rw [bare_disjoined, bare_disjoined, same])
  exact ((disjoined_disjuncts r).trans copies).trans (disjoined_disjuncts s).symm

end Equated

/-- What is joined from some relations has the parts that these have, in their order. -/
theorem parts_of_joinAll {parts : Relation κ → List (Relation κ)}
    {make : Nat → Relation κ → Relation κ → Relation κ} {unit : Nat → Relation κ}
    (join : ∀ n l r, parts (make n l r) = parts l ++ parts r) (none : ∀ n, parts (unit n) = [])
    {rs : List (Relation κ)} {root : Relation κ} {w w' : World κ σ}
    (built : joinAll (fun l r => create (make · l r)) (create unit) rs w = .ok root w') :
    parts root = rs.flatMap parts := by
  cases rs with
  | nil =>
    obtain ⟨rfl, rfl⟩ := EStateM.Result.ok.inj built
    exact none _
  | cons r rs =>
    rw [joinAll] at built
    induction rs generalizing r w with
    | nil =>
      obtain ⟨rfl, rfl⟩ := EStateM.Result.ok.inj built
      exact (List.append_nil _).symm
    | cons s rs ih =>
      rw [List.foldlM_cons] at built
      obtain ⟨t, w₁, made, later⟩ := bind_ok built
      rw [create_apply] at made
      obtain ⟨rfl, rfl⟩ := EStateM.Result.ok.inj made
      rw [ih _ later, List.flatMap_cons, join, List.append_assoc, List.flatMap_cons,
        List.flatMap_cons]

theorem conjuncts_all {rs : List (Relation κ)} {root : Relation κ} {w w' : World κ σ}
    (built : Relation.all rs w = .ok root w') : root.conjuncts = rs.flatMap conjuncts :=
  parts_of_joinAll (fun _ _ _ => rfl) (fun _ => rfl) built

theorem disjuncts_any {rs : List (Relation κ)} {root : Relation κ} {w w' : World κ σ}
    (built : Relation.any rs w = .ok root w') : root.disjuncts = rs.flatMap disjuncts :=
  parts_of_joinAll (fun _ _ _ => rfl) (fun _ => rfl) built

end Relation

/-! ## Going in step -/

/-- The relation is ready to be searched in a world that shows the environment, and the fuel suffices. -/
structure Relation.Primed (fuel : Nat) (env : Env κ) (r : Relation κ) (w : World κ σ) : Prop where
  coherent : r.Coherent
  separated : r.Separated
  enough : r.weight < fuel
  ready : r.Ready w
  shows : w.Shows env

theorem Relation.Primed.converses {fuel : Nat} {env : Env κ} {r : Relation κ} {w : World κ σ}
    (h : r.Primed fuel env w) (reply : Replies κ σ) :
    r.Converses reply fuel w (r.dialogue env) w :=
  .of_ready h.coherent h.separated h.enough h.ready h.shows

/-- The calls of `solve` on two relations, each in a world of its own, go in step up to the first that
answers `false` or is interrupted.  After each answer both worlds show the same environment. -/
inductive InStep (reply : Replies κ σ) (fuel fuel' : Nat) (r s : Relation κ) :
    World κ σ → World κ σ → Prop
  | found {env : Env κ} {w v w' v' : World κ σ} (left : r.solve reply.call fuel w = .ok true w')
      (right : s.solve reply.call fuel' v = .ok true v') (shows : w'.Shows env) (shows' : v'.Shows env)
      (client : v'.client = w'.client) (next : InStep reply fuel fuel' r s w' v') :
    InStep reply fuel fuel' r s w v
  | exhausted {w v w' v' : World κ σ} (left : r.solve reply.call fuel w = .ok false w')
      (right : s.solve reply.call fuel' v = .ok false v') (client : v'.client = w'.client) :
    InStep reply fuel fuel' r s w v
  | interrupted {why : Interrupt} {w v w' v' : World κ σ}
      (left : r.solve reply.call fuel w = .error why w')
      (right : s.solve reply.call fuel' v = .error why v') (client : v'.client = w'.client) :
    InStep reply fuel fuel' r s w v

namespace InStep

variable {reply : Replies κ σ} {fuel fuel' : Nat} {r s : Relation κ}
variable {start start' w v : World κ σ} {d : Dialogue κ} {client : σ}

/-- **What still holds the same dialogue goes in step.** -/
theorem of_follows {result result' : EStateM.Result Interrupt (World κ σ) Bool}
    {Done Done' : World κ σ → Prop}
    (left : Follows reply start (r.Converses reply fuel start) Done d client result)
    (right : Follows reply start' (s.Converses reply fuel' start') Done' d client result')
    (ran : r.solve reply.call fuel w = result) (ran' : s.solve reply.call fuel' v = result') :
    InStep reply fuel fuel' r s w v := by
  induction d generalizing client result result' w v Done Done' with
  | ask k args next ih =>
    cases left with
    | asked left =>
      cases right with
      | asked right => exact ih _ left right ran ran'
  | answer env rest ih =>
    cases left with
    | @found _ _ _ w' kept shows converses =>
      cases right with
      | @found _ _ _ v' kept' shows' converses' =>
        have same : v'.client = w'.client := kept'.trans kept.symm
        have next := converses'.call (.refl s v')
        rw [same] at next
        exact .found ran ran' shows shows' same (ih (converses.call (.refl r w')) next rfl rfl)
  | ended =>
    cases left with
    | ended kept =>
      cases right with
      | ended kept' => exact .exhausted ran ran' (kept'.trans kept.symm)
  | interrupted why =>
    cases left with
    | interrupted kept =>
      cases right with
      | interrupted kept' => exact .interrupted ran ran' (kept'.trans kept.symm)

/-- Relations that have the same dialogue to hold go in step. -/
theorem of_dialogue {env : Env κ} (left : r.Primed fuel env w) (right : s.Primed fuel' env v)
    (same : v.client = w.client) (dialogue : r.dialogue = s.dialogue) :
    InStep reply fuel fuel' r s w v := by
  have first := (left.converses reply).call (.refl r w)
  have second := (right.converses reply).call (.refl s v)
  rw [← dialogue, same] at second
  exact of_follows first second rfl rfl

end InStep

namespace Relation

variable {reply : Replies κ σ} {fuel fuel' : Nat} {r s : Relation κ} {w v : World κ σ} {env : Env κ}

/-- **Conjunction and disjunction obey their laws call by call.**  Two relations that are equal by the laws,
ready in worlds that show the same environment, go in step, whatever the callbacks reply and keep in
mind.  In particular conjunctions that join the same relations do, with any brackets and with any
relations among them that hold once, and so do disjunctions that join the same, but for relations that
never hold; and what is joined from a list joins just what the members of the list join. -/
theorem laws_in_step (left : r.Primed fuel env w) (right : s.Primed fuel' env v)
    (same : v.client = w.client) :
    (Equated r s → InStep reply fuel fuel' r s w v) ∧
    (r.conjuncts.map bare = s.conjuncts.map bare → InStep reply fuel fuel' r s w v) ∧
    (r.disjuncts.map bare = s.disjuncts.map bare → InStep reply fuel fuel' r s w v) ∧
    ∀ (rs : List (Relation κ)) (root : Relation κ) (u u' : World κ σ),
      (Relation.all rs u = .ok root u' → root.conjuncts = rs.flatMap conjuncts) ∧
      (Relation.any rs u = .ok root u' → root.disjuncts = rs.flatMap disjuncts) := by
  have goes (equal : Equated r s) : InStep reply fuel fuel' r s w v :=
    .of_dialogue left right same equal.dialogue
  exact ⟨goes, fun members => goes (.of_conjuncts members), fun members => goes (.of_disjuncts members),
    fun _ _ _ _ => ⟨conjuncts_all, disjuncts_any⟩⟩

/-- A conjunction whose left side is a disjunction, and a disjunction of two conjunctions: both come to the
same six pairs. -/
theorem pairs_in_step :
    let x : Var := ⟨0, "X"⟩
    let y (n : Nat) : Relation Function := .domain n ⟨1, "Y"⟩ [.bool false, .bool true, .unit]
    let a (n : Nat) : Relation Function := .domain n x [.bool false]
    let b (n : Nat) : Relation Function := .domain n x [.bool true]
    let w : World Function Unit := { client := () }
    InStep Function.replies 64 64 (.and 0 (.or 1 (a 2) (b 3)) (y 4))
      (.or 0 (.and 1 (a 2) (y 3)) (.and 4 (b 5) (y 6))) w w := by
  intro x y a b w
  let env : Env Function := { value := fun _ => none, pending := [] }
  let front : Relation Function := .and 0 (.or 1 (a 2) (b 3)) (y 4)
  let spread : Relation Function := .or 0 (.and 1 (a 2) (y 3)) (.and 4 (b 5) (y 6))
  have left : front.Primed 64 env w :=
    ⟨.of_nodup (by decide), ⟨by decide, ⟨trivial, trivial⟩, trivial⟩, by decide, .blank _ _, .blank _⟩
  have right : spread.Primed 64 env w :=
    ⟨.of_nodup (by decide), ⟨⟨by decide, trivial, trivial⟩, by decide, trivial, trivial⟩, by decide,
      .blank _ _, .blank _⟩
  have law : Equated front spread := by
    refine (Equated.or_and 0 1 0 1 4 (a 2) (b 3) (y 4)).trans ?_
    exact .copy rfl
  exact (laws_in_step left right rfl).1 law

end Relation
end RelationSearch
