import Mathlib.Data.List.Nodup
import RelationSearch.Proofs.Act

/-! # Relations as graphs

A relation is written as a tree, but its node numbers make it a graph: places with one number share one
search state.  This module says what a graph is made of (`subs`, `ids`), when the numbers make sense
(`Coherent`: one number, one relation — true of every relation that is built by giving each new node a
number not in use), and when the two sides of a conjunction keep to themselves (`Separated`: no node
is reachable from both).  It also bounds the number of answers that a relation can have (`weight`).
-/
namespace RelationSearch

variable {κ σ : Type}

namespace Relation

/-! ## Nodes -/

/-- A relation and all that it is made of.  A shared part is listed once for every place it has. -/
@[grind =] def subs : Relation κ → List (Relation κ)
  | .and n l r => .and n l r :: (l.subs ++ r.subs)
  | .or n l r => .or n l r :: (l.subs ++ r.subs)
  | .domain n x values => [.domain n x values]
  | .convert n x y f => [.convert n x y f]
  | .compare n x y c => [.compare n x y c]
  | .predicate n xs f => [.predicate n xs f]
  | .always n => [.always n]
  | .never n => [.never n]

/-- The numbers of the nodes that are reachable from a relation. -/
def ids (r : Relation κ) : List Nat := r.subs.map node

/-- One number stands for one relation. -/
def Coherent (root : Relation κ) : Prop :=
  ∀ s ∈ root.subs, ∀ t ∈ root.subs, s.node = t.node → s = t

/-- No node is reachable from both sides of a conjunction. -/
def Separated : Relation κ → Prop
  | .and _ l r => (∀ m ∈ l.ids, m ∉ r.ids) ∧ l.Separated ∧ r.Separated
  | .or _ l r => l.Separated ∧ r.Separated
  | .domain .. | .convert .. | .compare .. | .predicate .. | .always _ | .never _ => True

/-- The relation has no parts. -/
def IsLeaf (r : Relation κ) : Prop := r.parts = []

variable {root s t l r : Relation κ} {n m : Nat}

theorem mem_subs_self (r : Relation κ) : r ∈ r.subs := by
  cases r <;> simp [subs]

theorem node_mem_ids (r : Relation κ) : r.node ∈ r.ids :=
  List.mem_map.mpr ⟨r, mem_subs_self r, rfl⟩

theorem mem_subs_trans (hs : s ∈ t.subs) (ht : t ∈ root.subs) : s ∈ root.subs := by
  induction root with
  | and n l r ihl ihr | or n l r ihl ihr =>
    simp only [subs, List.mem_cons, List.mem_append] at ht ⊢
    rcases ht with rfl | ht | ht
    · simpa only [subs, List.mem_cons, List.mem_append] using hs
    · exact .inr (.inl (ihl ht))
    · exact .inr (.inr (ihr ht))
  | domain | convert | compare | predicate | always | never =>
    obtain rfl := List.mem_singleton.mp ht
    exact hs

theorem mem_ids_of_mem_subs (h : s ∈ root.subs) (hm : m ∈ s.ids) : m ∈ root.ids := by
  obtain ⟨t, ht, rfl⟩ := List.mem_map.mp hm
  exact List.mem_map.mpr ⟨t, mem_subs_trans ht h, rfl⟩

theorem mem_subs_of_mem_parts (h : s ∈ root.parts) : s ∈ root.subs := by
  cases root with
  | and n l r | or n l r =>
    rcases (by simpa [parts] using h : s = l ∨ s = r) with rfl | rfl <;> simp [subs, mem_subs_self]
  | domain | convert | compare | predicate | always | never => cases h

theorem mem_subs_of_part (hs : s ∈ t.parts) (ht : t ∈ root.subs) : s ∈ root.subs :=
  mem_subs_trans (mem_subs_of_mem_parts hs) ht

/-- What holds of a relation, and of the parts of whatever it holds of, holds of all it is made of. -/
theorem forall_subs {P : Relation κ → Prop} (here : P root)
    (down : ∀ t, P t → ∀ s ∈ t.parts, P s) : ∀ s ∈ root.subs, P s := by
  induction root with
  | and n l r ihl ihr | or n l r ihl ihr =>
    simp only [subs, List.mem_cons, List.mem_append]
    rintro s (rfl | hs | hs)
    · exact here
    · exact ihl (down _ here _ (by simp [parts])) s hs
    · exact ihr (down _ here _ (by simp [parts])) s hs
  | domain | convert | compare | predicate | always | never =>
    intro s hs
    obtain rfl := List.mem_singleton.mp hs
    exact here

theorem left_part_and : l ∈ (Relation.and n l r).parts := List.mem_cons_self ..

theorem right_part_and : r ∈ (Relation.and n l r).parts := by simp [parts]

theorem left_part_or : l ∈ (Relation.or n l r).parts := List.mem_cons_self ..

theorem right_part_or : r ∈ (Relation.or n l r).parts := by simp [parts]

theorem left_sub_and : l ∈ (Relation.and n l r).subs := mem_subs_of_mem_parts left_part_and

theorem right_sub_and : r ∈ (Relation.and n l r).subs := mem_subs_of_mem_parts right_part_and

theorem left_sub_or : l ∈ (Relation.or n l r).subs := mem_subs_of_mem_parts left_part_or

theorem right_sub_or : r ∈ (Relation.or n l r).subs := mem_subs_of_mem_parts right_part_or

/-- What is in a graph is its root, or in one of the parts of the root. -/
theorem eq_or_mem_part (h : s ∈ root.subs) : s = root ∨ ∃ t ∈ root.parts, s ∈ t.subs := by
  cases root with
  | and n l r | or n l r => simpa [subs, parts] using h
  | domain | convert | compare | predicate | always | never =>
    exact .inl (List.mem_singleton.mp h)

theorem forall_parts_and {P : Relation κ → Prop} (left : P l) (right : P r) :
    ∀ s ∈ (Relation.and n l r).parts, P s := by
  simp [parts, left, right]

theorem forall_parts_or {P : Relation κ → Prop} (left : P l) (right : P r) :
    ∀ s ∈ (Relation.or n l r).parts, P s := by
  simp [parts, left, right]

theorem not_isLeaf_and : ¬ (Relation.and n l r).IsLeaf := by simp [IsLeaf, parts]

theorem not_isLeaf_or : ¬ (Relation.or n l r).IsLeaf := by simp [IsLeaf, parts]

theorem mem_ids_and : m ∈ (Relation.and n l r).ids ↔ m = n ∨ m ∈ l.ids ∨ m ∈ r.ids := by
  simp [ids, subs, node]

theorem mem_ids_or : m ∈ (Relation.or n l r).ids ↔ m = n ∨ m ∈ l.ids ∨ m ∈ r.ids := by
  simp [ids, subs, node]

theorem subs_of_isLeaf (h : r.IsLeaf) : r.subs = [r] := by
  cases r <;> first | rfl | cases h

/-- A part has no more parts than the whole. -/
theorem length_subs_le (h : s ∈ root.subs) : s.subs.length ≤ root.subs.length := by
  induction root with
  | and n l r ihl ihr | or n l r ihl ihr =>
    simp only [subs, List.mem_cons, List.mem_append] at h
    rcases h with rfl | h | h
    · exact Nat.le_refl _
    · have := ihl h
      simp only [subs, List.length_cons, List.length_append]
      omega
    · have := ihr h
      simp only [subs, List.length_cons, List.length_append]
      omega
  | domain | convert | compare | predicate | always | never =>
    obtain rfl := List.mem_singleton.mp h
    exact Nat.le_refl _

theorem length_subs_lt (h : s ∈ root.parts) : s.subs.length < root.subs.length := by
  cases root with
  | and n l r | or n l r =>
    rcases (by simpa [parts] using h : s = l ∨ s = r) with rfl | rfl <;> grind
  | domain | convert | compare | predicate | always | never => cases h

/-! ## Coherent graphs -/

theorem Coherent.mono (h : root.Coherent) (hs : s ∈ root.subs) : s.Coherent :=
  fun a ha b hb => h a (mem_subs_trans ha hs) b (mem_subs_trans hb hs)

/-- A relation whose places all have different numbers is a tree, and coherent. -/
theorem Coherent.of_nodup (h : root.ids.Nodup) : root.Coherent :=
  fun _ hs _ ht => List.inj_on_of_nodup_map h hs ht

/-- A conjunction of coherent sides that share no node is coherent. -/
theorem Coherent.and (left : l.Coherent) (right : r.Coherent) (outL : n ∉ l.ids)
    (outR : n ∉ r.ids) (sides : ∀ m ∈ l.ids, m ∉ r.ids) : (Relation.and n l r).Coherent := by
  have own {s t : Relation κ} (hs : s ∈ t.subs) (same : n = s.node) : n ∈ t.ids :=
    same ▸ List.mem_map_of_mem hs
  have both {s t : Relation κ} (hs : s ∈ l.subs) (ht : t ∈ r.subs) (same : s.node = t.node) : False :=
    sides _ (List.mem_map_of_mem hs) (same ▸ List.mem_map_of_mem ht)
  intro s hs t ht same
  simp only [subs, List.mem_cons, List.mem_append] at hs ht
  rcases hs with rfl | hs | hs <;> rcases ht with rfl | ht | ht
  · rfl
  · exact absurd (own ht same) outL
  · exact absurd (own ht same) outR
  · exact absurd (own hs same.symm) outL
  · exact left s hs t ht same
  · exact (both hs ht same).elim
  · exact absurd (own hs same.symm) outR
  · exact (both ht hs same.symm).elim
  · exact right s hs t ht same

/-- A node is not among the nodes below it. -/
theorem Coherent.node_not_mem (h : root.Coherent) (hs : s ∈ root.parts) : root.node ∉ s.ids := by
  intro hm
  obtain ⟨t, ht, hn⟩ := List.mem_map.mp hm
  have hsub : t ∈ root.subs := mem_subs_trans ht (mem_subs_of_mem_parts hs)
  obtain rfl := h t hsub _ (mem_subs_self _) hn
  have hle := length_subs_le ht
  have hlt := length_subs_lt hs
  omega

/-- The sides of a conjunction share no node with each other, nor with the conjunction itself. -/
structure Apart (n : Nat) (l r : Relation κ) : Prop where
  left : n ∉ l.ids
  right : n ∉ r.ids
  sides : ∀ m ∈ l.ids, m ∉ r.ids
  coherent : r.Coherent

theorem Apart.of_separated (coherent : (Relation.and n l r).Coherent)
    (separated : (Relation.and n l r).Separated) : Apart n l r where
  left := coherent.node_not_mem left_part_and
  right := coherent.node_not_mem right_part_and
  sides := separated.1
  coherent := coherent.mono right_sub_and

/-! ## How many answers a relation can have -/

/-- A bound on the number of answers of a relation, wherever it paused, and of each of its parts. -/
def weight : Relation κ → Nat
  | .domain _ _ values => max 1 values.length
  | .and _ l r => (l.weight + 1) * (r.weight + 1)
  | .or _ l r => l.weight + r.weight
  | .convert .. | .compare .. | .predicate .. | .always _ | .never _ => 1

theorem weight_and : (Relation.and n l r).weight =
    l.weight * r.weight + l.weight + r.weight + 1 := by
  rw [weight, Nat.add_mul, Nat.mul_add]
  omega

theorem weight_le_of_mem_subs (h : s ∈ root.subs) : s.weight ≤ root.weight := by
  induction root with
  | and n l r ihl ihr =>
    simp only [subs, List.mem_cons, List.mem_append] at h
    rcases h with rfl | h | h
    · omega
    · have := ihl h
      rw [weight_and]
      omega
    · have := ihr h
      rw [weight_and]
      omega
  | or n l r ihl ihr =>
    simp only [subs, List.mem_cons, List.mem_append] at h
    rcases h with rfl | h | h
    · omega
    · have := ihl h
      rw [weight]
      omega
    · have := ihr h
      rw [weight]
      omega
  | domain | convert | compare | predicate | always | never =>
    obtain rfl := List.mem_singleton.mp h
    exact Nat.le_refl _

end Relation
end RelationSearch
