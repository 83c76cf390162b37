import RelationSearch.Proofs.Algebra

/-! # Building a conjunction leaf by leaf

A puzzle is built leaf by leaf, each in a new node, and then joined (`Builds`, `Assembled`).  Since the
nodes are numbered as they are made, the leaves that a computation makes are known from what it is asked
to make, without running it.  The conjunction is ready to be searched, and answers what the leaves answer
one after the other (`Assembled.answers`).
-/
namespace RelationSearch

open Act RelationSearch.Relation

variable {κ σ α β γ : Type} {w w' v : World κ σ} {r : Relation κ} {rs ss : List (Relation κ)}

/-! ## Leaves with numbers -/

namespace Relation

theorem bare_renumber (ρ : Nat → Nat) (r : Relation κ) : (r.renumber ρ).bare = r.bare := by
  induction r with
  | and n l r ihl ihr => exact congrArg₂ (Relation.and 0) ihl ihr
  | or n l r ihl ihr => exact congrArg₂ (Relation.or 0) ihl ihr
  | domain | convert | compare | predicate | always | never => rfl

theorem IsLeaf.renumber (leaf : r.IsLeaf) (ρ : Nat → Nat) : (r.renumber ρ).IsLeaf := by
  cases r with
  | and | or => cases leaf
  | domain | convert | compare | predicate | always | never => rfl

/-- Copies of some relations, numbered one after the other. -/
def numbered : List (Relation κ) → Nat → List (Relation κ)
  | [], _ => []
  | r :: rs, n => r.renumber (fun _ => n) :: numbered rs (n + 1)

theorem numbered_append (rs ss : List (Relation κ)) (n : Nat) :
    numbered (rs ++ ss) n = numbered rs n ++ numbered ss (n + rs.length) := by
  induction rs generalizing n with
  | nil => rfl
  | cons r rs ih =>
    rw [List.cons_append, numbered, ih, numbered, List.length_cons, Nat.add_assoc, Nat.add_comm 1]
    rfl

theorem mem_numbered {s : Relation κ} {n : Nat} (h : s ∈ numbered rs n) :
    ∃ r ∈ rs, ∃ m, n ≤ m ∧ m < n + rs.length ∧ s = r.renumber fun _ => m := by
  induction rs generalizing n with
  | nil => cases h
  | cons r rs ih =>
    rcases List.mem_cons.mp h with rfl | h
    · exact ⟨r, List.mem_cons_self .., n, Nat.le_refl n, by simp, rfl⟩
    · obtain ⟨t, ht, m, low, high, rfl⟩ := ih h
      refine ⟨t, List.mem_cons_of_mem _ ht, m, by omega, ?_, rfl⟩
      rw [List.length_cons]
      omega

theorem ids_of_isLeaf (leaf : r.IsLeaf) : r.ids = [r.node] := by
  rw [ids, subs_of_isLeaf leaf]
  rfl

/-- A numbered leaf has its number, and no other. -/
theorem ids_renumbered (leaf : r.IsLeaf) (n : Nat) : (r.renumber fun _ => n).ids = [n] := by
  rw [ids_of_isLeaf (leaf.renumber _), node_renumber]

/-- Leaves have no numbers in common. -/
theorem apart_numbered (leaves : ∀ r ∈ rs, r.IsLeaf) (n : Nat) :
    (numbered rs n).Pairwise fun r s => ∀ m ∈ r.ids, m ∉ s.ids := by
  induction rs generalizing n with
  | nil => exact .nil
  | cons r rs ih =>
    obtain ⟨leaf, leaves⟩ := List.forall_mem_cons.mp leaves
    refine List.pairwise_cons.mpr ⟨fun s hs m hm hm' => ?_, ih leaves (n + 1)⟩
    obtain ⟨t, ht, k, low, -, rfl⟩ := mem_numbered hs
    rw [ids_renumbered leaf, List.mem_singleton] at hm
    rw [ids_renumbered (leaves t ht), List.mem_singleton] at hm'
    omega

end Relation

/-! ## New variables -/

theorem Var.create_apply (name : String) (w : World κ σ) : (Var.create name : Act κ σ _) w =
    .ok ⟨w.cells.size, name⟩ { w with cells := w.cells.push {} } := rfl

/-- Variables that are created one after the other are numbered so, and no other cell is touched. -/
theorem Var.create_mapM (name : γ → String) (cs : List γ) (w : World κ σ) :
    ∃ xs w', (cs.mapM fun c => Var.create (name c) : Act κ σ _) w = .ok xs w' ∧
      xs.map Var.id = List.range' w.cells.size cs.length ∧ xs.map Var.name = cs.map name ∧
      ∀ i, w.cells.get i = {} → w'.cells.get i = {} := by
  induction cs generalizing w with
  | nil => exact ⟨[], w, rfl, rfl, rfl, fun _ bare => bare⟩
  | cons c cs ih =>
    obtain ⟨xs, w', ran, ids, names, new⟩ := ih { w with cells := w.cells.push {} }
    refine ⟨⟨w.cells.size, name c⟩ :: xs, w', ?_, ?_, ?_, fun i bare => new i ?_⟩
    · rw [List.mapM_cons, bind_apply, Var.create_apply]
      dsimp only
      rw [bind_apply, ran]
      rfl
    · rw [List.map_cons, ids, Table.size_push]
      rfl
    · rw [List.map_cons, names]
      rfl
    · rw [Table.get_push, bare, ite_self]

/-- The variables that are created are different, and their cells are as new. -/
theorem Var.created_new (name : γ → String) (cs : List γ) (w : World κ σ) :
    ∃ xs w', (cs.mapM fun c => Var.create (name c) : Act κ σ _) w = .ok xs w' ∧
      xs.map Var.name = cs.map name ∧ (xs.map Var.id).Nodup ∧ ∀ x ∈ xs, w'.cell x = {} := by
  obtain ⟨xs, w', ran, ids, names, new⟩ := Var.create_mapM name cs w
  refine ⟨xs, w', ran, names, ids ▸ List.nodup_range', fun x hx => ?_⟩
  have member : x.id ∈ xs.map Var.id := List.mem_map_of_mem hx
  rw [ids, List.mem_range'_1] at member
  exact new x.id (Table.get_of_size_le _ member.1)

/-! ## Computations that make leaves -/

/-- So many nodes have been added, which are as new.  Otherwise at most labels and owners have changed. -/
structure Enlarged (k : Nat) (w w' : World κ σ) : Prop where
  cells : w'.cells = w.cells
  size : w'.nodes.size = w.nodes.size + k
  old : ∀ m, m < w.nodes.size →
    (w'.node m).progress = (w.node m).progress ∧ (w'.node m).busy = (w.node m).busy
  new : ∀ m, w.nodes.size ≤ m → m < w'.nodes.size →
    (w'.node m).progress = .fresh ∧ (w'.node m).busy = false

namespace Enlarged

theorem refl (w : World κ σ) : Enlarged 0 w w :=
  ⟨rfl, rfl, fun _ _ => ⟨rfl, rfl⟩, fun _ low high => absurd high (Nat.not_lt_of_le low)⟩

theorem trans {j k : Nat} (h : Enlarged j w w') (g : Enlarged k w' v) : Enlarged (j + k) w v where
  cells := g.cells.trans h.cells
  size := by rw [g.size, h.size, Nat.add_assoc]
  old m hm := by
    have within : m < w'.nodes.size := by rw [h.size]; omega
    obtain ⟨progress, busy⟩ := g.old m within
    exact ⟨progress.trans (h.old m hm).1, busy.trans (h.old m hm).2⟩
  new m low high := by
    by_cases early : m < w'.nodes.size
    · obtain ⟨progress, busy⟩ := g.old m early
      rw [progress, busy]
      exact h.new m low early
    · exact g.new m (Nat.le_of_not_lt early) high

theorem added (w : World κ σ) : Enlarged 1 w w.added where
  cells := rfl
  size := Table.size_push ..
  old m hm := by rw [World.node_added_of_lt hm]; exact ⟨rfl, rfl⟩
  new m _ high := by
    have size : w.added.nodes.size = w.nodes.size + 1 := Table.size_push ..
    obtain rfl : m = w.nodes.size := by omega
    rw [World.node_added]
    exact ⟨rfl, rfl⟩

/-- A node is given a name. -/
theorem relabelled {n : Nat} (hn : n < w.nodes.size) (f : Node → Option String) :
    Enlarged 0 w (w.modifyNode n fun node => { node with label := f node }) := by
  have progress (m : Nat) := World.field_modifyNode Node.progress
    (f := fun node => { node with label := f node }) (fun _ => rfl) w n m
  have busy (m : Nat) := World.field_modifyNode Node.busy
    (f := fun node => { node with label := f node }) (fun _ => rfl) w n m
  have size : (w.nodes.modify n fun node => { node with label := f node }).size = w.nodes.size :=
    Table.size_modify_of_lt _ _ hn
  refine ⟨rfl, size, fun m _ => ⟨progress m, busy m⟩, fun m low high => ?_⟩
  exact absurd (Nat.lt_of_lt_of_eq high size) (Nat.not_lt_of_le low)

end Enlarged

/-- In any world the computation makes the relations, each in a new node, and answers them. -/
def Builds (act : Act κ σ α) (parts : α → List (Relation κ)) (rs : List (Relation κ)) : Prop :=
  ∀ w, ∃ a w', act w = .ok a w' ∧ parts a = numbered rs w.nodes.size ∧ Enlarged rs.length w w'

namespace Builds

variable {act : Act κ σ α} {act' : Act κ σ β} {parts : α → List (Relation κ)}
variable {parts' : β → List (Relation κ)} {out : γ → List (Relation κ)}

theorem create {make : Nat → Relation κ} (h : ∀ n, make n = r.renumber fun _ => n) :
    Builds (Relation.create make : Act κ σ _) ([·]) [r] :=
  fun w => ⟨_, _, create_apply make w, by rw [h]; rfl, .added w⟩

theorem labelled {act : Act κ σ (Relation κ)} (h : Builds act ([·]) [r]) (label : String) :
    Builds (act >>= Relation.labelled label) ([·]) [r] := by
  intro w
  obtain ⟨s, w', ran, made, enlarged⟩ := h w
  obtain rfl : s = r.renumber fun _ => w.nodes.size := by simpa [numbered] using made
  have known : (r.renumber fun _ => w.nodes.size).node < w'.nodes.size := by
    rw [node_renumber, enlarged.size]
    exact Nat.lt_succ_self _
  refine ⟨_, _, ?_, made, enlarged.trans (.relabelled known fun node => node.label.or (some label))⟩
  rw [bind_apply, ran]
  rfl

theorem nothing {a : α} (h : parts a = []) : Builds (pure a : Act κ σ α) parts [] :=
  fun w => ⟨a, w, rfl, h, .refl w⟩

/-- What two computations make, one after the other. -/
theorem both (first : Builds act parts rs) (second : Builds act' parts' ss) {f : α → β → γ}
    (joins : ∀ a b, out (f a b) = parts a ++ parts' b) :
    Builds (do let a ← act; let b ← act'; return f a b) out (rs ++ ss) := by
  intro w
  obtain ⟨a, w₁, ran, made, enlarged⟩ := first w
  obtain ⟨b, w₂, ran', made', enlarged'⟩ := second w₁
  refine ⟨f a b, w₂, ?_, ?_, ?_⟩
  · rw [bind_apply, ran]
    dsimp only
    rw [bind_apply, ran']
    rfl
  · rw [joins, made, made', numbered_append, enlarged.size]
  · rw [List.length_append]
    exact enlarged.trans enlarged'

theorem map (h : Builds act parts rs) {f : α → β} (same : ∀ a, parts' (f a) = parts a) :
    Builds (do let a ← act; return f a) parts' rs := by
  intro w
  obtain ⟨a, w', ran, made, enlarged⟩ := h w
  refine ⟨f a, w', ?_, (same a).trans made, enlarged⟩
  rw [bind_apply, ran]
  rfl

/-- What a computation makes for each member of a list. -/
theorem mapM {xs : List γ} {f : γ → Act κ σ α} {g : γ → List (Relation κ)}
    (each : ∀ x ∈ xs, Builds (f x) parts (g x)) :
    Builds (xs.mapM f) (·.flatMap parts) (xs.flatMap g) := by
  induction xs with
  | nil =>
    rw [List.mapM_nil]
    exact nothing rfl
  | cons x xs ih =>
    obtain ⟨here, later⟩ := List.forall_mem_cons.mp each
    rw [List.mapM_cons]
    exact here.both (ih later) fun _ _ => List.flatMap_cons

end Builds

/-- Leaves that have just been made stand alone. -/
theorem Standalone.numbered (leaves : ∀ r ∈ rs, r.IsLeaf) (enlarged : Enlarged rs.length w w') :
    Standalone (numbered rs w.nodes.size) w' := by
  have made : ∀ s ∈ Relation.numbered rs w.nodes.size,
      s.IsLeaf ∧ ∃ m, w.nodes.size ≤ m ∧ m < w'.nodes.size ∧ s.ids = [m] := by
    intro s hs
    obtain ⟨r, hr, m, low, high, rfl⟩ := mem_numbered hs
    exact ⟨(leaves r hr).renumber _, m, low, enlarged.size ▸ high, ids_renumbered (leaves r hr) m⟩
  refine {
    coherent := fun s hs => ?coherent
    separated := fun s hs => ?separated
    ready := fun s hs m hm => ?ready
    exist := fun s hs m hm => ?exist
    apart := apart_numbered leaves _ }
  case coherent =>
    obtain ⟨-, m, -, -, ids⟩ := made s hs
    exact .of_nodup (ids ▸ List.nodup_singleton m)
  case separated =>
    have leaf := (made s hs).1
    cases s with
    | and | or => cases leaf
    | domain | convert | compare | predicate | always | never => trivial
  case ready =>
    obtain ⟨-, k, low, high, ids⟩ := made s hs
    obtain rfl : m = k := List.mem_singleton.mp (ids ▸ hm)
    exact enlarged.new m low high
  case exist =>
    obtain ⟨-, k, -, high, ids⟩ := made s hs
    obtain rfl : m = k := List.mem_singleton.mp (ids ▸ hm)
    exact high

/-! ## The conjunction -/

namespace Relation

/-- The variables that a relation mentions, in the order in which it does. -/
def mentioned (r : Relation κ) : List Var := r.subs.flatMap operands

theorem mentioned_and (n : Nat) (l r : Relation κ) :
    (Relation.and n l r).mentioned = l.mentioned ++ r.mentioned := by
  rw [mentioned, subs, List.flatMap_cons, List.flatMap_append]
  rfl

theorem mentioned_or (n : Nat) (l r : Relation κ) :
    (Relation.or n l r).mentioned = l.mentioned ++ r.mentioned := by
  rw [mentioned, subs, List.flatMap_cons, List.flatMap_append]
  rfl

theorem mentioned_of_isLeaf (leaf : r.IsLeaf) : r.mentioned = r.operands := by
  rw [mentioned, subs_of_isLeaf leaf, List.flatMap_singleton]

theorem operands_renumber (ρ : Nat → Nat) (r : Relation κ) : (r.renumber ρ).operands = r.operands := by
  cases r <;> rfl

theorem mentioned_conjuncts (r : Relation κ) : r.conjuncts.flatMap mentioned = r.mentioned := by
  induction r with
  | and n l r ihl ihr => rw [conjuncts, List.flatMap_append, ihl, ihr, mentioned_and]
  | always => rfl
  | domain | convert | compare | predicate | or | never => exact List.flatMap_singleton ..

theorem conjuncts_renumber (ρ : Nat → Nat) (r : Relation κ) :
    (r.renumber ρ).conjuncts = r.conjuncts.map (renumber ρ) := by
  induction r with
  | and n l r ihl ihr => rw [renumber, conjuncts, ihl, ihr, conjuncts, List.map_append]
  | domain | convert | compare | predicate | or | always | never => rfl

theorem bare_conjuncts_numbered (rs : List (Relation κ)) (n : Nat) :
    ((numbered rs n).flatMap conjuncts).map bare = (rs.flatMap conjuncts).map bare := by
  induction rs generalizing n with
  | nil => rfl
  | cons r rs ih =>
    rw [numbered, List.flatMap_cons, List.flatMap_cons, List.map_append, List.map_append, ih,
      conjuncts_renumber, List.map_map]
    refine congrArg (· ++ _) (List.map_congr_left fun s _ => bare_renumber _ s)

theorem mentioned_numbered (leaves : ∀ r ∈ rs, r.IsLeaf) (n : Nat) :
    (numbered rs n).flatMap mentioned = rs.flatMap operands := by
  induction rs generalizing n with
  | nil => rfl
  | cons r rs ih =>
    obtain ⟨leaf, leaves⟩ := List.forall_mem_cons.mp leaves
    rw [numbered, List.flatMap_cons, List.flatMap_cons, ih leaves,
      mentioned_of_isLeaf (leaf.renumber _), operands_renumber]

theorem conjuncts_conjoined (rs : List (Relation κ)) :
    (conjoined rs).conjuncts = rs.flatMap conjuncts := by
  induction rs with
  | nil => rfl
  | cons r rs ih => exact congrArg (r.conjuncts ++ ·) ih

end Relation

/-- The root is the conjunction of leaves that were made in the world `w`, and is ready to be searched. -/
structure Assembled (rs : List (Relation Function)) (w : World Function σ) (root : Relation Function)
    (w' : World Function σ) : Prop where
  alone : Standalone [root] w'
  restored : Restored w w'
  conjuncts : root.conjuncts = (numbered rs w.nodes.size).flatMap conjuncts

/-- What is made leaf by leaf and then joined is assembled. -/
theorem Builds.all {act : Act Function σ α} {parts : α → List (Relation Function)}
    {rs : List (Relation Function)} (builds : Builds act parts rs) (leaves : ∀ r ∈ rs, r.IsLeaf)
    (w : World Function σ) : ∃ root w',
      (do let made ← act; Relation.all (parts made)) w = .ok root w' ∧ Assembled rs w root w' := by
  obtain ⟨made, w₁, ran, same, enlarged⟩ := builds w
  obtain ⟨root, w', joined, result⟩ := Joined.of_all (Standalone.numbered leaves enlarged)
  refine ⟨root, w', ?_, result.alone, ?_, conjuncts_all joined⟩
  · rw [bind_apply, ran]
    dsimp only
    rw [same]
    exact joined
  · have cells : Restored w w₁ := .of_cells fun x => by rw [World.cell, World.cell, enlarged.cells]
    exact cells.trans result.restored

namespace Assembled

variable {rs : List (Relation Function)} {root : Relation Function} {w w' : World Function σ}

/-- An assembled conjunction answers what its leaves answer one after the other. -/
theorem answers (h : Assembled rs w root w') : root.answers = (conjoined rs).answers := by
  refine (Equated.of_conjuncts ?_).answers
  rw [h.conjuncts, conjuncts_conjoined, bare_conjuncts_numbered]

/-- An assembled conjunction mentions what its leaves mention. -/
theorem mentioned (h : Assembled rs w root w') (leaves : ∀ r ∈ rs, r.IsLeaf) :
    root.mentioned = rs.flatMap operands := by
  have each : (fun s : Relation Function => s.conjuncts.flatMap Relation.mentioned) =
      Relation.mentioned := funext mentioned_conjuncts
  rw [← mentioned_conjuncts, h.conjuncts, List.flatMap_assoc, each, mentioned_numbered leaves]

end Assembled
end RelationSearch
