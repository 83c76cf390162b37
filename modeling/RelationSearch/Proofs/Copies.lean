import Mathlib.Data.List.Forall2
import RelationSearch.Proofs.Watches

/-! # Copies of a graph

A copy of a graph has nodes of its own and is otherwise the same (`Relation.renumber`).  It may be searched
in another world, whose variables have been bound more or less often, so that generations and the ids
of watches differ.  What a search compares them for does not differ: both count up from where they were
when the search began, and are then equally far from there (`Level`).

Two worlds are *alike* (`Twin.Alike`) when the one looks to the graph as the other looks to the copy.  Two
computations *keep step* (`Relates`) when from such worlds they come to the same end, in such worlds.
Keeping step is closed under everything that searches are put together from.
-/
namespace RelationSearch

open Act

variable {κ σ α β : Type}

namespace Relation

/-- The relation with other node numbers. -/
def renumber (ρ : Nat → Nat) : Relation κ → Relation κ
  | .domain n x values => .domain (ρ n) x values
  | .convert n x y f => .convert (ρ n) x y f
  | .compare n x y c => .compare (ρ n) x y c
  | .predicate n xs f => .predicate (ρ n) xs f
  | .and n l r => .and (ρ n) (l.renumber ρ) (r.renumber ρ)
  | .or n l r => .or (ρ n) (l.renumber ρ) (r.renumber ρ)
  | .always n => .always (ρ n)
  | .never n => .never (ρ n)

variable (ρ : Nat → Nat) (r : Relation κ)

@[simp] theorem node_renumber : (r.renumber ρ).node = ρ r.node := by
  cases r <;> rfl

theorem ids_renumber : (r.renumber ρ).ids = r.ids.map ρ := by
  induction r with
  | and n l r ihl ihr | or n l r ihl ihr =>
    simp only [ids, renumber, subs, List.map_cons, List.map_append] at ihl ihr ⊢
    rw [ihl, ihr]
    rfl
  | domain | convert | compare | predicate | always | never => rfl

end Relation

/-! ## Counters -/

/-- The numbers `m` and `n` are equally far above `i` and `j`. -/
def Level (i j m n : Nat) : Prop := ∃ d, m = i + d ∧ n = j + d

namespace Level

variable {i j m n m' n' : Nat}

theorem start : Level i j i j := ⟨0, rfl, rfl⟩

theorem succ (h : Level i j m n) : Level i j (m + 1) (n + 1) := by
  obtain ⟨d, rfl, rfl⟩ := h
  exact ⟨d + 1, rfl, rfl⟩

theorem eq_iff (h : Level i j m n) (h' : Level i j m' n') : m = m' ↔ n = n' := by
  obtain ⟨d, rfl, rfl⟩ := h
  obtain ⟨d', rfl, rfl⟩ := h'
  omega

end Level

/-! ## Cells -/

/-- The watches have the same duty; they both were there before, or came equally late. -/
structure Watch.Alike (i j : Nat) (u v : Watch κ) : Prop where
  duty : u.duty = v.duty
  id : u.id < i ∧ v.id < j ∨ Level i j u.id v.id

theorem Watch.Alike.ne_iff {i j m n : Nat} {u v : Watch κ} (h : u.Alike i j v)
    (level : Level i j m n) : (u.id != m) = (v.id != n) := by
  rcases h.id with ⟨hu, hv⟩ | later
  -- A watch that was there before is older than any number in question.
  · obtain ⟨d, rfl, rfl⟩ := level
    rw [bne_iff_ne.mpr (by omega), bne_iff_ne.mpr (by omega)]
  · rw [Bool.eq_iff_iff, bne_iff_ne, bne_iff_ne, ne_eq, ne_eq, later.eq_iff level]

/-- The cells hold the same value, and have changed alike since they were `a` and `b`. -/
structure Cell.Alike (a b c d : Cell κ) : Prop where
  value : d.value = c.value
  generation : Level a.generation b.generation c.generation d.generation
  watches : List.Forall₂ (Watch.Alike a.nextWatch b.nextWatch) c.watches d.watches
  nextWatch : Level a.nextWatch b.nextWatch c.nextWatch d.nextWatch

namespace Cell.Alike

variable {a b c d : Cell κ}

/-- Cells that hold the same value and watches with the same duties are alike in the beginning. -/
theorem start (value : b.value = a.value)
    (duties : a.watches.map Watch.duty = b.watches.map Watch.duty)
    (left : ∀ watch ∈ a.watches, watch.id < a.nextWatch)
    (right : ∀ watch ∈ b.watches, watch.id < b.nextWatch) : Alike a b a b := by
  refine ⟨value, .start, ?_, .start⟩
  -- Equal duties pair the watches off, and all of them were there before.
  have paired : List.Forall₂ Eq (a.watches.map Watch.duty) (b.watches.map Watch.duty) :=
    duties ▸ List.forall₂_same.mpr fun _ _ => rfl
  rw [List.forall₂_map_left_iff, List.forall₂_map_right_iff, List.forall₂_iff_get] at paired
  rw [List.forall₂_iff_get]
  refine ⟨paired.1, fun i hu hv => ⟨paired.2 i hu hv, .inl ⟨?_, ?_⟩⟩⟩
  · exact left _ (List.get_mem ..)
  · exact right _ (List.get_mem ..)

theorem put (h : Alike a b c d) (v : Value) : Alike a b (c.put v) (d.put v) where
  value := rfl
  generation := h.generation.succ
  watches := h.watches
  nextWatch := h.nextWatch

theorem clear (h : Alike a b c d) : Alike a b c.clear d.clear := by
  unfold Cell.clear
  rw [h.value]
  cases c.value with
  | none => exact h
  | some v => exact ⟨rfl, h.generation.succ, h.watches, h.nextWatch⟩

theorem addWatch (h : Alike a b c d) (other : Var) (comparison : Comparison κ) (onLeft : Bool) :
    Alike a b (c.addWatch other comparison onLeft) (d.addWatch other comparison onLeft) where
  value := h.value
  generation := h.generation
  watches := List.rel_append h.watches (.cons ⟨rfl, .inr h.nextWatch⟩ .nil)
  nextWatch := h.nextWatch.succ

theorem dropWatch (h : Alike a b c d) {m n : Nat} (level : Level a.nextWatch b.nextWatch m n) :
    Alike a b (c.dropWatch m) (d.dropWatch n) where
  value := h.value
  generation := h.generation
  watches := List.rel_filter (fun _ _ alike => Bool.eq_iff_iff.mp (alike.ne_iff level)) h.watches
  nextWatch := h.nextWatch

end Cell.Alike

/-! ## Keeping step -/

/-- The computations came to the same end: both answered, and the answers are in the relation `V`, or
both met the same interrupt.  The worlds they left are in the relation `R`. -/
inductive Matches (V : α → β → Prop) (R : World κ σ → World κ σ → Prop) :
    EStateM.Result Interrupt (World κ σ) α → EStateM.Result Interrupt (World κ σ) β → Prop
  | ok {a : α} {b : β} {w v : World κ σ} (values : V a b) (worlds : R w v) :
    Matches V R (.ok a w) (.ok b v)
  | error {why : Interrupt} {w v : World κ σ} (worlds : R w v) :
    Matches V R (.error why w) (.error why v)

theorem Matches.bind {α' β' : Type} {V : α → β → Prop} {V' : α' → β' → Prop}
    {R : World κ σ → World κ σ → Prop} {act : Act κ σ α} {act' : Act κ σ β}
    {next : α → Act κ σ α'} {next' : β → Act κ σ β'} {w v : World κ σ}
    (first : Matches V R (act w) (act' v))
    (hn : ∀ a b, V a b → ∀ w v, R w v → Matches V' R (next a w) (next' b v)) :
    Matches V' R ((act >>= next) w) ((act' >>= next') v) := by
  rw [bind_apply, bind_apply]
  generalize act w = result, act' v = result' at first
  cases first with
  | ok values worlds => exact hn _ _ values _ _ worlds
  | error worlds => exact .error worlds

/-- From related worlds the computations come to the same end. -/
def Relates (V : α → β → Prop) (R : World κ σ → World κ σ → Prop) (act : Act κ σ α)
    (act' : Act κ σ β) : Prop :=
  ∀ w v, R w v → Matches V R (act w) (act' v)

namespace Relates

variable {α' β' : Type} {V : α → β → Prop} {V' : α' → β' → Prop}
variable {R : World κ σ → World κ σ → Prop}

theorem pure {a : α} {b : β} (h : V a b) :
    Relates V R (Pure.pure a : Act κ σ α) (Pure.pure b : Act κ σ β) :=
  fun _ _ => .ok h

theorem throw (why : Interrupt) : Relates V R (MonadExcept.throw why : Act κ σ α)
    (MonadExcept.throw why : Act κ σ β) :=
  fun _ _ => .error

theorem bind {act : Act κ σ α} {act' : Act κ σ β} {next : α → Act κ σ α'}
    {next' : β → Act κ σ β'} (h : Relates V R act act')
    (hn : ∀ a b, V a b → Relates V' R (next a) (next' b)) :
    Relates V' R (act >>= next) (act' >>= next') :=
  fun w v hw => (h w v hw).bind hn

theorem get_bind {next : World κ σ → Act κ σ α} {next' : World κ σ → Act κ σ β}
    (hn : ∀ w v, R w v → Relates V R (next w) (next' v)) :
    Relates V R (get >>= next) (get >>= next') :=
  fun w v hw => hn w v hw w v hw

theorem modify {f g : World κ σ → World κ σ} (h : ∀ w v, R w v → R (f w) (g v)) :
    Relates Eq R (modify f : Act κ σ PUnit) (modify g : Act κ σ PUnit) :=
  fun w v hw => .ok rfl (h w v hw)

theorem ite {test test' : Act κ σ Bool} {yes no : Act κ σ α} {yes' no' : Act κ σ β}
    (h : Relates Eq R test test') (hy : Relates V R yes yes') (hn : Relates V R no no') :
    Relates V R (do if ← test then yes else no) (do if ← test' then yes' else no') :=
  h.bind fun a _ same => by subst same; cases a <;> assumption

theorem attempt {act act' : Act κ σ α} (h : Relates Eq R act act') :
    Relates Eq R (Act.attempt act) (Act.attempt act') := by
  intro w v hw
  have ended := h w v hw
  unfold Act.attempt
  generalize act w = result, act' v = result' at ended
  cases ended with
  | ok values worlds => exact .ok (congrArg _ values) worlds
  | error worlds => exact .ok rfl worlds

end Relates

/-! ## Alike worlds -/

/-- A graph and the numbering of a copy of it, the worlds in which the two start, and how the states of
their clients are related. -/
structure Twin (σ : Type) where
  root : Relation Function
  coherent : root.Coherent
  number : Nat → Nat
  injective : ∀ m ∈ root.ids, ∀ n ∈ root.ids, number m = number n → m = n
  left : World Function σ
  right : World Function σ
  client : σ → σ → Prop

namespace Twin

variable (T : Twin σ)

/-- The entries note the same watch on the same variable. -/
def Entry (e e' : Var × Nat) : Prop :=
  e'.1 = e.1 ∧ Level (T.left.cell e.1).nextWatch (T.right.cell e.1).nextWatch e.2 e'.2

/-- A node of the graph and that of the copy pause at the same place.  The generation that a conversion
notes is that of its source. -/
inductive Pauses (s : Relation Function) : Progress → Progress → Prop
  | fresh : Pauses s .fresh .fresh
  | binding (rest : List Value) : Pauses s (.binding rest) (.binding rest)
  | checked : Pauses s .checked .checked
  | applied {g g' : Nat} (owns : Bool) (level : ∀ z ∈ s.operands.head?,
      Level (T.left.cell z).generation (T.right.cell z).generation g g') :
    Pauses s (.applied g owns) (.applied g' owns)
  | fired {entries entries' : List (Var × Nat)} (noted : List.Forall₂ T.Entry entries entries') :
    Pauses s (.fired entries) (.fired entries')
  | retrying : Pauses s .retrying .retrying
  | inLeft : Pauses s .inLeft .inLeft
  | inRight : Pauses s .inRight .inRight
  | exhausted : Pauses s .exhausted .exhausted

/-- The worlds look alike to the graph and to its copy.  `busy` tells which nodes are busy. -/
structure Alike (busy : Nat → Bool) (w v : World Function σ) : Prop where
  cell : ∀ x, (T.left.cell x).Alike (T.right.cell x) (w.cell x) (v.cell x)
  pauses : ∀ s ∈ T.root.subs,
    T.Pauses s (w.node s.node).progress (v.node (T.number s.node)).progress
  busy : ∀ m ∈ T.root.ids, (w.node m).busy = busy m ∧ (v.node (T.number m)).busy = busy m
  client : T.client w.client v.client

namespace Alike

variable {T} {busy : Nat → Bool} {w v : World Function σ} {s : Relation Function}

theorem value (h : T.Alike busy w v) (x : Var) : v.value x = w.value x := (h.cell x).value

theorem modifyCell (h : T.Alike busy w v) {x : Var} {f g : Cell Function → Cell Function}
    (hx : (T.left.cell x).Alike (T.right.cell x) (f (w.cell x)) (g (v.cell x))) :
    T.Alike busy (w.modifyCell x f) (v.modifyCell x g) := by
  refine ⟨fun y => ?_, h.pauses, h.busy, h.client⟩
  by_cases hy : x.id = y.id
  · rw [← cell_congr (w.modifyCell x f) hy, ← cell_congr (v.modifyCell x g) hy,
      ← cell_congr T.left hy, ← cell_congr T.right hy, World.cell_modifyCell_self,
      World.cell_modifyCell_self]
    exact hx
  · rw [World.cell_modifyCell_of_ne _ _ hy, World.cell_modifyCell_of_ne _ _ hy]
    exact h.cell y

/-- What a node of the graph and that of the copy become alike stays alike. -/
theorem modifyNode {busy' : Nat → Bool} (h : T.Alike busy w v) (hs : s ∈ T.root.subs)
    {f g : Node → Node}
    (pauses : T.Pauses s (f (w.node s.node)).progress (g (v.node (T.number s.node))).progress)
    (same : (f (w.node s.node)).busy = busy' s.node ∧
      (g (v.node (T.number s.node))).busy = busy' s.node)
    (others : ∀ m, m ≠ s.node → busy' m = busy m) :
    T.Alike busy' (w.modifyNode s.node f) (v.modifyNode (T.number s.node) g) := by
  have hn : s.node ∈ T.root.ids := List.mem_map_of_mem hs
  refine ⟨h.cell, fun t ht => ?_, fun m hm => ?_, h.client⟩
  · by_cases e : s.node = t.node
    · obtain rfl := T.coherent s hs t ht e
      rw [World.node_modifyNode_self, World.node_modifyNode_self]
      exact pauses
    · have ne : T.number s.node ≠ T.number t.node :=
        fun same => e (T.injective _ hn _ (List.mem_map_of_mem ht) same)
      rw [World.node_modifyNode_of_ne _ _ e, World.node_modifyNode_of_ne _ _ ne]
      exact h.pauses t ht
  · by_cases e : s.node = m
    · subst e
      rw [World.node_modifyNode_self, World.node_modifyNode_self]
      exact same
    · have ne : T.number s.node ≠ T.number m := fun same => e (T.injective _ hn _ hm same)
      rw [World.node_modifyNode_of_ne _ _ e, World.node_modifyNode_of_ne _ _ ne,
        others m fun same => e same.symm]
      exact h.busy m hm

theorem noted (h : T.Alike busy w v) (hs : s ∈ T.root.subs) {p p' : Progress}
    (pauses : T.Pauses s p p') :
    T.Alike busy (w.noted s.node p) (v.noted (T.number s.node) p') :=
  h.modifyNode hs pauses (h.busy _ (List.mem_map_of_mem hs)) fun _ _ => rfl

theorem setBusy (h : T.Alike busy w v) (hs : s ∈ T.root.subs) (b : Bool) :
    T.Alike (Function.update busy s.node b) (w.setBusy s.node b)
      (v.setBusy (T.number s.node) b) := by
  have here : b = Function.update busy s.node b s.node :=
    (Function.update_self s.node b busy).symm
  exact h.modifyNode hs (h.pauses s hs) ⟨here, here⟩ fun m hm => Function.update_of_ne hm ..

/-- Counting a call makes no difference. -/
theorem count (h : T.Alike busy w v) (hs : s ∈ T.root.subs) (f : Counters → Counters) :
    T.Alike busy (w.modifyNode s.node fun node => { node with counters := f node.counters })
      (v.modifyNode (T.number s.node) fun node => { node with counters := f node.counters }) :=
  h.modifyNode hs (h.pauses s hs) (h.busy _ (List.mem_map_of_mem hs)) fun _ _ => rfl

theorem record (h : T.Alike busy w v) (event event' : World Function σ → Event) :
    T.Alike busy (w.record event) (v.record event') where
  cell x := by
    rw [World.cell_record, World.cell_record]
    exact h.cell x
  pauses s hs := by
    rw [World.node_record, World.node_record]
    exact h.pauses s hs
  busy m hm := by
    rw [World.node_record, World.node_record]
    exact h.busy m hm
  client := by
    rw [World.client_record, World.client_record]
    exact h.client

end Alike

end Twin

end RelationSearch
