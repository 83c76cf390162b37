import RelationSearch.Order.Basic
import RelationSearch.Proofs.Reordering

/-! # The order of candidates

A heuristic puts the candidates of a domain in another order (`Heuristic`).  A graph that is built again
with heuristics for its domains finds the same solutions, each as often, in another order
(`Relation.heuristics_only_reorder`).

The search of the rebuilt graph is another one from the first candidate on: later branches are entered
from other states, checks are made in another order and comparisons veto other values first.  In the
answers of the relation all this comes down to proposing the same values in another order, and those are
independent choices where no comparison is of a variable with itself (`Answers.Shuffled.propose`).
-/
namespace RelationSearch

open Act RelationSearch.Relation

variable {κ σ : Type}

/-- A way to put candidates in order, which adds, loses and repeats none. -/
structure Heuristic where
  order : List Value → List Value
  perm : ∀ values, (order values).Perm values

/-- The candidates as they were declared, or shuffled by a seed. -/
def CandidateOrder.heuristic (order : CandidateOrder) : Heuristic where
  order := order.arrange
  perm := order.arrange_perm

/-! ## Sequences in another order -/

namespace Answers

variable {α β : Type} {a b a' b' : Answers α}

/-- Either both sequences end with an interrupt, or they have the same answers, each as often. -/
structure Shuffled (a b : Answers α) : Prop where
  interrupt : a.interrupt = Option.none ↔ b.interrupt = Option.none
  found : a.interrupt = Option.none → a.found.Perm b.found

namespace Shuffled

theorem refl (a : Answers α) : Shuffled a a := ⟨Iff.rfl, fun _ => .refl _⟩

theorem trans {c : Answers α} (h : Shuffled a b) (g : Shuffled b c) : Shuffled a c :=
  ⟨h.interrupt.trans g.interrupt,
    fun normal => (h.found normal).trans (g.found (h.interrupt.mp normal))⟩

theorem append (h : Shuffled a a') (g : Shuffled b b') : Shuffled (a.append b) (a'.append b') where
  interrupt := by rw [interrupt_append, interrupt_append, h.interrupt, g.interrupt]
  found normal := by
    obtain ⟨first, second⟩ := interrupt_append.mp normal
    rw [found_append first, found_append (h.interrupt.mp first)]
    exact (h.found first).append (g.found second)

/-- Of three sequences the first two may change places. -/
theorem append_left_comm (a b c : Answers α) :
    Shuffled (a.append (b.append c)) (b.append (a.append c)) where
  interrupt := by
    rw [interrupt_append, interrupt_append, interrupt_append, interrupt_append]
    exact and_left_comm
  found normal := by
    obtain ⟨first, later⟩ := interrupt_append.mp normal
    obtain ⟨second, -⟩ := interrupt_append.mp later
    rw [found_append first, found_append second, found_append second, found_append first]
    exact List.perm_append_comm_assoc ..

theorem bind {next next' : α → Answers β} (h : Shuffled a a')
    (later : ∀ d ∈ a.found, Shuffled (next d) (next' d)) :
    Shuffled (a.bind next) (a'.bind next') := by
  have ends : (a.bind next).interrupt = Option.none ↔ (a'.bind next').interrupt = Option.none := by
    rw [interrupt_bind, interrupt_bind, ← h.interrupt]
    refine and_congr_right fun normal => ?_
    have same := h.found normal
    exact ⟨fun all d hd => (later d (same.mem_iff.mpr hd)).interrupt.mp (all d (same.mem_iff.mpr hd)),
      fun all d hd => (later d hd).interrupt.mpr (all d (same.mem_iff.mp hd))⟩
  refine ⟨ends, fun normal => ?_⟩
  obtain ⟨first, each⟩ := interrupt_bind.mp normal
  rw [found_bind normal, found_bind (ends.mp normal)]
  exact (List.Perm.flatMap_left _ fun d hd => (later d hd).found (each d hd)).trans
    ((h.found first).flatMap_right _)

/-- Where no comparison is of the variable with itself, values may be proposed to it in any order. -/
theorem propose {env : Env Function} {x : Var} (apart : env.Apart x) {values values' : List Value}
    (same : values.Perm values') :
    Shuffled (env.propose x values).answers (env.propose x values').answers := by
  rw [Env.answers_propose apart, Env.answers_propose apart]
  induction same with
  | nil => exact .refl _
  | cons v _ ih =>
    rw [Env.offer, Env.offer]
    exact .append (.refl _) ih
  | swap u v values =>
    simp only [Env.offer]
    exact append_left_comm ..
  | trans _ _ first second => exact first.trans second

end Shuffled
end Answers

/-! ## Graphs with heuristics -/

namespace Relation

variable {fuel fuel' : Nat} {env : Env Function} {w v : World Function σ}

/-- The graph with a heuristic for each of its domains. -/
def rearranged (heuristics : Nat → Heuristic) : Relation κ → Relation κ
  | .domain n x values => .domain n x ((heuristics n).order values)
  | .and n l r => .and n (l.rearranged heuristics) (r.rearranged heuristics)
  | .or n l r => .or n (l.rearranged heuristics) (r.rearranged heuristics)
  | .convert n x y f => .convert n x y f
  | .compare n x y c => .compare n x y c
  | .predicate n xs f => .predicate n xs f
  | .always n => .always n
  | .never n => .never n

theorem subs_rearranged (heuristics : Nat → Heuristic) (r : Relation κ) :
    (r.rearranged heuristics).subs = r.subs.map (rearranged heuristics) := by
  induction r with
  | and n l r ihl ihr | or n l r ihl ihr =>
    simp only [rearranged, subs, List.map_cons, List.map_append, ihl, ihr]
  | domain | convert | compare | predicate | always | never => rfl

theorem node_rearranged (heuristics : Nat → Heuristic) (r : Relation κ) :
    (r.rearranged heuristics).node = r.node := by
  cases r <;> rfl

theorem ids_rearranged (heuristics : Nat → Heuristic) (r : Relation κ) :
    (r.rearranged heuristics).ids = r.ids := by
  rw [ids, subs_rearranged, List.map_map, ids]
  exact List.map_congr_left fun s _ => node_rearranged heuristics s

theorem weight_rearranged (heuristics : Nat → Heuristic) (r : Relation κ) :
    (r.rearranged heuristics).weight = r.weight := by
  induction r with
  | domain n x values => rw [rearranged, weight, ((heuristics n).perm values).length_eq, weight]
  | and n l r ihl ihr | or n l r ihl ihr => rw [rearranged, weight, ihl, ihr, weight]
  | convert | compare | predicate | always | never => rfl

theorem weight_renumber (ρ : Nat → Nat) (r : Relation κ) : (r.renumber ρ).weight = r.weight := by
  induction r with
  | and n l r ihl ihr | or n l r ihl ihr => rw [renumber, weight, ihl, ihr, weight]
  | domain | convert | compare | predicate | always | never => rfl

theorem answers_renumber (ρ : Nat → Nat) (r : Relation Function) :
    (r.renumber ρ).answers = r.answers := by
  funext env
  rw [answers, dialogue_renumber, answers]

theorem Coherent.rearranged {r : Relation κ} (coherent : r.Coherent)
    (heuristics : Nat → Heuristic) :
    (r.rearranged heuristics).Coherent := by
  intro a ha b hb same
  rw [subs_rearranged] at ha hb
  obtain ⟨s, hs, rfl⟩ := List.mem_map.mp ha
  obtain ⟨t, ht, rfl⟩ := List.mem_map.mp hb
  rw [node_rearranged, node_rearranged] at same
  rw [coherent s hs t ht same]

/-- **Candidates in another order** give the same answers in another order. -/
theorem answers_rearranged (heuristics : Nat → Heuristic) {r : Relation Function}
    (comparers : r.ComparesTwo) (distinct : env.Distinct) :
    (r.answers env).Shuffled ((r.rearranged heuristics).answers env) := by
  induction r generalizing env with
  | domain n x values =>
    have same := (heuristics n).perm values
    rw [rearranged]
    cases held : env.value x.id with
    | some v =>
      rw [answers_domain_of_bound held, answers_domain_of_bound held, same.contains_eq]
      exact .refl _
    | none =>
      rw [answers_domain_of_free held, answers_domain_of_free held]
      exact .propose (distinct.apart x) same.symm
  | and n l r ihl ihr =>
    rw [rearranged, answers_and, answers_and]
    exact .bind (ihl (comparers.mono left_sub_and) distinct) fun d hd =>
      ihr (comparers.mono right_sub_and)
        (distinct_of_mem_answers (comparers.mono left_sub_and) distinct hd)
  | or n l r ihl ihr =>
    rw [rearranged, answers_or, answers_or]
    exact .append (ihl (comparers.mono left_sub_or) distinct)
      (ihr (comparers.mono right_sub_or) distinct)
  | convert | compare | predicate | always | never => exact .refl _

theorem Separated.rearranged {r : Relation κ} (separated : r.Separated)
    (heuristics : Nat → Heuristic) : (r.rearranged heuristics).Separated := by
  induction r with
  | and n l r ihl ihr =>
    refine ⟨?_, ihl separated.2.1, ihr separated.2.2⟩
    rw [ids_rearranged, ids_rearranged]
    exact separated.1
  | or n l r ihl ihr => exact ⟨ihl separated.1, ihr separated.2⟩
  | domain | convert | compare | predicate | always | never => trivial

theorem Separated.renumber {r : Relation κ} {ρ : Nat → Nat} (separated : r.Separated)
    (injective : ∀ m ∈ r.ids, ∀ n ∈ r.ids, ρ m = ρ n → m = n) : (r.renumber ρ).Separated := by
  induction r with
  | and n l r ihl ihr =>
    have left {m : Nat} (hm : m ∈ l.ids) : m ∈ (Relation.and n l r).ids :=
      mem_ids_and.mpr (.inr (.inl hm))
    have right {m : Nat} (hm : m ∈ r.ids) : m ∈ (Relation.and n l r).ids :=
      mem_ids_and.mpr (.inr (.inr hm))
    refine ⟨fun m hm hm' => ?_, ihl separated.2.1 fun m hm k hk => injective m (left hm) k (left hk),
      ihr separated.2.2 fun m hm k hk => injective m (right hm) k (right hk)⟩
    rw [ids_renumber] at hm hm'
    obtain ⟨i, hi, rfl⟩ := List.mem_map.mp hm
    obtain ⟨j, hj, same⟩ := List.mem_map.mp hm'
    obtain rfl := injective j (right hj) i (left hi) same
    exact separated.1 j hi hj
  | or n l r ihl ihr =>
    have left {m : Nat} (hm : m ∈ l.ids) : m ∈ (Relation.or n l r).ids :=
      mem_ids_or.mpr (.inr (.inl hm))
    have right {m : Nat} (hm : m ∈ r.ids) : m ∈ (Relation.or n l r).ids :=
      mem_ids_or.mpr (.inr (.inr hm))
    exact ⟨ihl separated.1 fun m hm k hk => injective m (left hm) k (left hk),
      ihr separated.2 fun m hm k hk => injective m (right hm) k (right hk)⟩
  | domain | convert | compare | predicate | always | never => trivial

/-- **Heuristics only reorder the solutions.**  Build a graph again, with a heuristic for each of its
domains and with nodes of its own, and search both where the variables are bound alike.  One search comes to
its end without an error just if the other does, and then they find the same solutions, each as often.
A shuffle by a seed is such a heuristic: it orders any list of candidates, equal ones among them. -/
theorem heuristics_only_reorder {r : Relation Function} (heuristics : Nat → Heuristic) (ρ : Nat → Nat)
    (coherent : r.Coherent) (separated : r.Separated) (comparers : r.ComparesTwo)
    (injective : ∀ m ∈ r.ids, ∀ n ∈ r.ids, ρ m = ρ n → m = n) (distinct : env.Distinct)
    (ready : r.Ready w) (shows : w.Shows env) (enough : r.weight < fuel)
    (ready' : ((r.rearranged heuristics).renumber ρ).Ready v) (shows' : v.Shows env)
    (enough' : r.weight < fuel') :
    ((∃ solutions, r.Enumerates fuel solutions w) ↔
      ∃ solutions, ((r.rearranged heuristics).renumber ρ).Enumerates fuel' solutions v) ∧
    (∀ solutions solutions', r.Enumerates fuel solutions w →
      ((r.rearranged heuristics).renumber ρ).Enumerates fuel' solutions' v →
        solutions.Perm solutions') ∧
    ∀ (seed : UInt64) (items : List Value),
      ((CandidateOrder.shuffled seed).heuristic.order items).Perm items := by
  have same : (r.answers env).Shuffled (((r.rearranged heuristics).renumber ρ).answers env) := by
    rw [answers_renumber]
    exact answers_rearranged heuristics comparers distinct
  have injective' := ids_rearranged heuristics r ▸ injective
  have coherent' := (coherent.rearranged heuristics).renumber injective'
  have separated' := (separated.rearranged heuristics).renumber injective'
  have light : ((r.rearranged heuristics).renumber ρ).weight < fuel' := by
    rwa [weight_renumber, weight_rearranged]
  refine ⟨⟨fun ⟨solutions, h⟩ => ?_, fun ⟨solutions, h⟩ => ?_⟩, fun solutions solutions' h h' => ?_,
    fun seed => (CandidateOrder.shuffled seed).heuristic.perm⟩
  · obtain ⟨normal, -⟩ := h.eq_answers coherent separated ready shows
    exact ⟨_, (Resumes.of_ready coherent' separated' light ready' shows').enumerates
      (same.interrupt.mp normal)⟩
  · obtain ⟨normal, -⟩ := h.eq_answers coherent' separated' ready' shows'
    exact ⟨_, (Resumes.of_ready coherent separated enough ready shows).enumerates
      (same.interrupt.mpr normal)⟩
  · obtain ⟨normal, rfl⟩ := h.eq_answers coherent separated ready shows
    obtain ⟨-, rfl⟩ := h'.eq_answers coherent' separated' ready' shows'
    exact (same.found normal).map Env.value

/-- Two bits, offered in one order and in the other. -/
theorem bits_in_either_order :
    let bits : List Value := [.bool false, .bool true]
    let pair : Relation Function := .and 0 (.domain 1 ⟨0, "X"⟩ bits) (.domain 2 ⟨1, "Y"⟩ bits)
    let backwards : Heuristic := ⟨List.reverse, List.reverse_perm⟩
    let w : World Function Unit := { client := () }
    ∃ solutions solutions', solutions.length = 4 ∧ pair.Enumerates 16 solutions w ∧
      ((pair.rearranged fun _ => backwards).renumber (· + 3)).Enumerates 16 solutions' w ∧
      solutions.Perm solutions' := by
  intro bits pair backwards w
  let env : Env Function := { value := fun _ => none, pending := [] }
  have coherent : pair.Coherent := .of_nodup (by decide)
  have separated : pair.Separated := ⟨by decide, trivial, trivial⟩
  have light : pair.weight < 16 := by decide
  have enumerates : pair.Enumerates 16 ((pair.answers env).found.map Env.value) w :=
    (Resumes.of_ready coherent separated light (.blank pair ()) (.blank ())).enumerates
      (by decide +kernel)
  have distinct : env.Distinct := fun q hq => absurd hq List.not_mem_nil
  obtain ⟨ends, same, -⟩ := heuristics_only_reorder (fun _ => backwards) (· + 3) coherent separated
    (fun n z u c hs => by simp [pair, subs] at hs) (fun _ _ _ _ h => Nat.add_right_cancel h) distinct
    (.blank pair ()) (.blank ()) light (.blank _ ()) (.blank ()) light
  obtain ⟨solutions', enumerates'⟩ := ends.mp ⟨_, enumerates⟩
  exact ⟨_, solutions', by decide +kernel, enumerates, enumerates', same _ _ enumerates enumerates'⟩

end Relation
end RelationSearch
