import RelationSearch.Proofs.Listing
import RelationSearch.Proofs.Ownership
import RelationSearch.Proofs.Reentry
import RelationSearch.Relation.Report

/-! # Walks through a relation

A graph is walked through in two ways: with a stack for its nodes (`Relation.walk`), by recursion for its
variables.  Both come to the nodes in the order of `Relation.subs`, the order of the unfolded tree, but the
first passes over a node that it found before, together with all that is below it.

Nothing is lost by that.  When the walk comes upon a node again, everything below the node has been
found: the node is not below itself, so that its parts have been gone through since it was found.  Hence
the walk finds, one relation after the other, what is new in the unfolded tree (`walk_over`), and listing
the variables of what it found misses none and changes no order.

The handles of the walk are so many owners more (`World.Lends`).  They are given up where they are not
needed, and the last ones when the reports have been taken, which do not count them.
-/
namespace RelationSearch

open Act RelationSearch.Relation

variable {κ σ α β : Type} {w v : World κ σ} {root r s l : Relation κ} {n : Nat}
variable {found stack handles handles' : List (Relation κ)}

/-! ## The handles of a walk -/

theorem Table.eq_of_get [Inhabited α] {t u : Table α} (size : t.size = u.size)
    (get : ∀ i, t.get i = u.get i) : t = u := by
  obtain ⟨entries⟩ := t
  obtain ⟨entries'⟩ := u
  refine congrArg Table.mk (Array.ext size fun i hi hi' => ?_)
  simpa [Table.get, hi, hi'] using get i

/-- A node that is live is in the table. -/
theorem World.lt_size_of_live (alive : w.live n = true) : n < w.nodes.size := by
  by_contra out
  refine World.live_eq_true.mp alive ?_
  rw [World.node, Table.get_of_size_le _ (Nat.le_of_not_lt out)]
  rfl

/-- The world `v` is the world `w` with one more owner of a relation for every handle on it. -/
structure World.Lends (w : World κ σ) (handles : List (Relation κ)) (v : World κ σ) : Prop where
  rest : v = { w with nodes := v.nodes }
  size : v.nodes.size = w.nodes.size
  node : ∀ m, v.node m = { w.node m with owners := (w.node m).owners + mentions m handles }

namespace World.Lends

theorem none (w : World κ σ) : w.Lends [] w := ⟨rfl, rfl, fun _ => rfl⟩

theorem perm (h : w.Lends handles v) (same : handles.Perm handles') : w.Lends handles' v where
  rest := h.rest
  size := h.size
  node m := by rw [h.node, mentions, mentions, same.countP_eq]

/-- When no handles are left, the world is as it was. -/
theorem returned (h : w.Lends [] v) : v = w := by
  rw [h.rest]
  exact congrArg (fun nodes => { w with nodes }) (Table.eq_of_get h.size h.node)

theorem owners (h : w.Lends handles v) (n : Nat) :
    (v.node n).owners = (w.node n).owners + mentions n handles := by
  rw [h.node]

theorem busy (h : w.Lends handles v) (n : Nat) : (v.node n).busy = (w.node n).busy := by
  rw [h.node]

theorem live (h : w.Lends handles v) (alive : w.live n = true) : v.live n = true := by
  rw [World.live_eq_true] at *
  have := h.owners n
  omega

theorem shared (h : w.Lends handles v) (alive : w.live r.node = true) :
    w.Lends (r :: handles) (v.shared r.node) where
  rest := by rw [World.shared, World.modifyNode, h.rest]
  size := by
    rw [← h.size]
    exact Table.size_modify_of_lt _ _ (World.lt_size_of_live (h.live alive))
  node m := by
    rw [World.shared, World.node_modifyNode, h.node, mentions_cons]
    split
    · rw [Nat.add_assoc, Nat.add_comm 1]
    · rw [Nat.zero_add]

theorem disowned (h : w.Lends (r :: handles) v) (alive : w.live r.node = true) :
    w.Lends handles (v.disowned r.node) where
  rest := by rw [World.disowned, World.modifyNode, h.rest]
  size := by
    rw [← h.size]
    exact Table.size_modify_of_lt _ _ (World.lt_size_of_live (h.live alive))
  node m := by
    rw [World.disowned, World.node_modifyNode, h.node, mentions_cons]
    split
    · rw [Nat.add_comm 1, ← Nat.add_assoc, Nat.add_sub_cancel]
    · rw [Nat.zero_add]

/-- A handle that is not the only owner is given up without further ado. -/
theorem release (h : w.Lends (r :: handles) v) (alive : w.live r.node = true) :
    r.release v = .ok ⟨⟩ (v.disowned r.node) := by
  have still : (v.disowned r.node).live r.node = true := (h.disowned alive).live alive
  cases r <;> simp only [Relation.release, bind_apply, disown_apply] <;>
    simp_all [Relation.node]

theorem retainAll {rs : List (Relation κ)} (h : w.Lends handles v)
    (alive : ∀ r ∈ rs, w.live r.node = true) :
    ∃ v', Relation.retainAll rs v = .ok ⟨⟩ v' ∧ w.Lends (rs ++ handles) v' := by
  induction rs generalizing handles v with
  | nil => exact ⟨v, rfl, h⟩
  | cons r rs ih =>
    obtain ⟨here, later⟩ := List.forall_mem_cons.mp alive
    obtain ⟨v', ran, lends⟩ := ih (h.shared here) later
    exact ⟨v', ran, lends.perm List.perm_middle⟩

theorem releaseAll {rs : List (Relation κ)} (h : w.Lends rs v)
    (alive : ∀ r ∈ rs, w.live r.node = true) : Relation.releaseAll rs v = .ok ⟨⟩ w := by
  induction rs generalizing v with
  | nil => rw [h.returned]; rfl
  | cons r rs ih =>
    obtain ⟨here, later⟩ := List.forall_mem_cons.mp alive
    rw [Relation.releaseAll, bind_apply, h.release here]
    exact ih (h.disowned here) later

end World.Lends

/-! ## The walk -/

/-- One number stands for one relation of the graph, and every node of it has an owner. -/
structure Intact (root : Relation κ) (w : World κ σ) : Prop where
  coherent : root.Coherent
  live : ∀ m ∈ root.ids, w.live m = true

/-- Whatever a handle leads to is intact. -/
theorem Inventory.intact {made held : List (Relation κ)} (h : Inventory made held w) (hr : r ∈ held) :
    Intact r w where
  coherent := h.coherent (h.known r hr)
  live m hm := by
    obtain ⟨s, hs, rfl⟩ := List.mem_map.mp hm
    have reached : Reaches held s := ⟨r, hr, hs⟩
    exact (h.live_iff_reaches (h.mem_of_reaches reached)).mpr reached

/-- A walk through the graph of the root is about to enter `r`.  It found relations of the graph that nobody
is driving, and where it found one that is in `r`, it has found all that is below it. -/
structure Found (root : Relation κ) (w : World κ σ) (r : Relation κ) (found : List (Relation κ)) :
    Prop where
  known : found ⊆ root.subs
  idle : ∀ m ∈ found.map node, (w.node m).busy = false
  closed : ∀ x ∈ found, x.node ∈ r.ids → ∀ m ∈ x.ids, m ∈ found.map node

namespace Found

/-- What was found before was found with all that is below it. -/
theorem all_of_old (h : Found root w r found) (coherent : root.Coherent) (hr : r ∈ root.subs)
    (old : r.node ∈ found.map node) : ∀ m ∈ r.ids, m ∈ found.map node := by
  obtain ⟨x, hx, same⟩ := List.mem_map.mp old
  obtain rfl : x = r := coherent x (h.known hx) r hr same
  exact h.closed x hx (node_mem_ids x)

/-- The relation is found, and then its parts are entered. -/
theorem left (h : Found root w r found) (hr : r ∈ root.subs) (hl : l ∈ r.parts) (coherent : r.Coherent)
    (idle : (w.node r.node).busy = false) : Found root w l (found ++ [r]) where
  known := List.append_subset.mpr ⟨h.known, by simpa using hr⟩
  idle := by
    rw [List.map_append, List.forall_mem_append]
    exact ⟨h.idle, by simpa using idle⟩
  closed x hx hm m hm' := by
    rw [List.map_append, List.mem_append]
    rcases List.mem_append.mp hx with hx | hx
    · exact .inl (h.closed x hx (mem_ids_of_mem_subs (mem_subs_of_mem_parts hl) hm) m hm')
    · obtain rfl := List.mem_singleton.mp hx
      exact absurd hm (coherent.node_not_mem hl)

/-- When one part has been gone through, the other is entered. -/
theorem right (h : Found root w s found) (hl : l ∈ root.subs) (idle : l.Idle w) :
    Found root w s (addNewBy node found l.subs) where
  known x hx := by
    rcases List.mem_append.mp (addNewBy_subset hx) with hx | hx
    · exact h.known hx
    · exact mem_subs_trans hx hl
  idle m hm := (mem_keys_addNewBy.mp hm).elim (h.idle m) (idle m)
  closed x hx hm m hm' := by
    rcases List.mem_append.mp (addNewBy_subset hx) with hx | hx
    · exact mem_keys_addNewBy.mpr (.inl (h.closed x hx hm m hm'))
    · exact mem_keys_addNewBy.mpr (.inr (mem_ids_of_mem_subs hx hm'))

end Found

section Steps

variable (h : w.Lends (r :: stack ++ found) v)
include h

/-- A node that was found before is passed over. -/
theorem walk_old (old : r.node ∈ found.map node) (alive : w.live r.node = true) :
    walk found (r :: stack) v = walk found stack (v.disowned r.node) ∧
      w.Lends (stack ++ found) (v.disowned r.node) := by
  refine ⟨?_, World.Lends.disowned h alive⟩
  rw [walk, if_pos (any_key.mpr old), bind_apply, World.Lends.release h alive]

/-- A new node is entered. -/
theorem walk_new (new : r.node ∉ found.map node) (idle : (w.node r.node).busy = false)
    (alive : ∀ s ∈ r.parts, w.live s.node = true) :
    ∃ v', walk found (r :: stack) v = walk (found ++ [r]) (r.parts ++ stack) v' ∧
      w.Lends (r.parts ++ stack ++ (found ++ [r])) v' := by
  obtain ⟨v', ran, lends⟩ := h.retainAll alive
  refine ⟨v', ?_, lends.perm ?_⟩
  · rw [walk, if_neg (mt any_key.mp new), bind_apply, get_apply]
    simp only [h.busy, idle, Bool.false_eq_true, if_false, bind_apply, ran]
  · rw [List.append_assoc, ← List.append_assoc stack]
    exact (List.perm_append_singleton r (stack ++ found)).symm.append_left _

/-- At a new node that is being solved the walk ends, and gives all its handles back. -/
theorem walk_busy (new : r.node ∉ found.map node) (busy : (w.node r.node).busy = true)
    (alive : ∀ s ∈ r :: stack ++ found, w.live s.node = true) :
    walk found (r :: stack) v = .error .busy w := by
  rw [walk, if_neg (mt any_key.mp new), bind_apply, get_apply]
  simp only [h.busy, busy, if_true, bind_apply, h.releaseAll alive, throw_apply]

end Steps

/-- What a walk comes to that has the relation on top of its stack.  If nobody is driving a node of it, the
walk finds what is new in the unfolded tree, and goes on.  Otherwise it is interrupted, and everything is
as it was. -/
def WalksOver (root : Relation κ) (w : World κ σ) (r : Relation κ) : Prop :=
  ∀ (found stack : List (Relation κ)) (v : World κ σ), Found root w r found → stack ⊆ root.subs →
    w.Lends (r :: stack ++ found) v →
    (¬ r.Idle w ∧ walk found (r :: stack) v = .error .busy w) ∨
    r.Idle w ∧ ∃ v', walk found (r :: stack) v = walk (addNewBy node found r.subs) stack v' ∧
      w.Lends (stack ++ addNewBy node found r.subs) v'

namespace WalksOver

variable (intact : Intact root w) (hr : r ∈ root.subs)
include intact hr

theorem of_old (h : Found root w r found) (lends : w.Lends (r :: stack ++ found) v)
    (old : r.node ∈ found.map node) :
    r.Idle w ∧ ∃ v', walk found (r :: stack) v = walk (addNewBy node found r.subs) stack v' ∧
      w.Lends (stack ++ addNewBy node found r.subs) v' := by
  have all := h.all_of_old intact.coherent hr old
  have known : addNewBy node found r.subs = found :=
    addNewBy_known fun x hx => all _ (List.mem_map_of_mem hx)
  rw [known]
  exact ⟨fun m hm => h.idle m (all m hm), _, walk_old lends old (intact.live _ (List.mem_map_of_mem hr))⟩

theorem of_busy (h : Found root w r found) (known : stack ⊆ root.subs)
    (lends : w.Lends (r :: stack ++ found) v) (new : r.node ∉ found.map node)
    (busy : (w.node r.node).busy = true) :
    ¬ r.Idle w ∧ walk found (r :: stack) v = .error .busy w := by
  refine ⟨fun idle => Bool.false_ne_true ((idle _ (node_mem_ids r)).symm.trans busy), ?_⟩
  refine walk_busy lends new busy fun s hs => intact.live _ (List.mem_map_of_mem ?_)
  have all : r :: stack ++ found ⊆ root.subs :=
    List.append_subset.mpr ⟨List.cons_subset.mpr ⟨hr, known⟩, h.known⟩
  exact all hs

theorem of_parts (parts : r.parts = [l, s]) (subs : r.subs = r :: (l.subs ++ s.subs))
    (left : WalksOver root w l) (right : WalksOver root w s) : WalksOver root w r := by
  intro found stack v h known lends
  by_cases old : r.node ∈ found.map node
  · exact .inr (of_old intact hr h lends old)
  cases busy : (w.node r.node).busy with
  | true => exact .inl (of_busy intact hr h known lends old busy)
  | false =>
    have inL : l ∈ r.parts := by simp [parts]
    have inR : s ∈ r.parts := by simp [parts]
    have hl := mem_subs_of_part inL hr
    have hs := mem_subs_of_part inR hr
    have coherent := intact.coherent.mono hr
    obtain ⟨v₁, entered, lends₁⟩ := walk_new lends old busy fun t ht =>
      intact.live _ (List.mem_map_of_mem (mem_subs_of_part ht hr))
    rw [parts] at entered lends₁
    change _ = walk (found ++ [r]) (l :: s :: stack) v₁ at entered
    rw [entered]
    rcases left _ _ _ (h.left hr inL coherent busy) (List.cons_subset.mpr ⟨hs, known⟩) lends₁ with
      ⟨met, ended⟩ | ⟨idleL, v₂, goneL, lends₂⟩
    · exact .inl ⟨fun idle => met (idle.mono (mem_subs_of_mem_parts inL)), ended⟩
    · rw [goneL]
      rcases right _ _ _ ((h.left hr inR coherent busy).right hl idleL) known lends₂ with
        ⟨met, ended⟩ | ⟨idleR, v₃, goneR, lends₃⟩
      · exact .inl ⟨fun idle => met (idle.mono (mem_subs_of_mem_parts inR)), ended⟩
      · refine .inr ⟨fun m hm => ?_, v₃, ?_, ?_⟩
        · have split : m = r.node ∨ m ∈ l.ids ∨ m ∈ s.ids := by simpa [ids, subs] using hm
          rcases split with rfl | hm | hm
          exacts [busy, idleL m hm, idleR m hm]
        · rw [goneR, subs, addNewBy_cons_new old, addNewBy_append]
        · rw [subs, addNewBy_cons_new old, addNewBy_append]
          exact lends₃

theorem of_isLeaf (leaf : r.IsLeaf) : WalksOver root w r := by
  intro found stack v h known lends
  by_cases old : r.node ∈ found.map node
  · exact .inr (of_old intact hr h lends old)
  cases busy : (w.node r.node).busy with
  | true => exact .inl (of_busy intact hr h known lends old busy)
  | false =>
    have none : r.parts = [] := leaf
    obtain ⟨v', entered, lends'⟩ := walk_new lends old busy (by simp [none])
    rw [none] at entered lends'
    refine .inr ⟨fun m hm => ?_, v', ?_, ?_⟩
    · obtain rfl : m = r.node := by simpa [ids, subs_of_isLeaf leaf] using hm
      exact busy
    · rw [entered, subs_of_isLeaf leaf, addNewBy_cons_new old]
      rfl
    · rw [subs_of_isLeaf leaf, addNewBy_cons_new old]
      exact lends'

end WalksOver

/-- **The walk follows the unfolded tree**, and leaves out what it has found before. -/
theorem walk_over (intact : Intact root w) (hr : r ∈ root.subs) : WalksOver root w r := by
  induction r with
  | and n l r ihl ihr =>
    exact .of_parts intact hr rfl rfl (ihl (mem_subs_of_part left_part_and hr))
      (ihr (mem_subs_of_part right_part_and hr))
  | or n l r ihl ihr =>
    exact .of_parts intact hr rfl rfl (ihl (mem_subs_of_part left_part_or hr))
      (ihr (mem_subs_of_part right_part_or hr))
  | domain | convert | compare | predicate | always | never => exact .of_isLeaf intact hr rfl

/-! ## What is listed -/

namespace Relation

/-- The relations in a graph, each once, in the order in which the unfolded tree first has them. -/
def firsts (root : Relation κ) : List (Relation κ) :=
  root.subs.eraseDupsBy fun s t => s.node == t.node

theorem firsts_eq (root : Relation κ) : root.firsts = addNewBy node [] root.subs :=
  (addNewBy_nil node root.subs).symm

theorem nodup_firsts (root : Relation κ) : (root.firsts.map node).Nodup := by
  rw [firsts_eq]
  exact nodup_addNewBy List.nodup_nil

theorem mem_firsts (coherent : root.Coherent) : s ∈ root.firsts ↔ s ∈ root.subs := by
  have listed : s ∈ addNewBy node [] root.subs ↔ s ∈ [] ∨ s ∈ root.subs := mem_addNewBy coherent
  rw [firsts_eq, listed]
  simp

/-- Listing the nodes of a graph. -/
theorem nodes_cases (intact : Intact root w) :
    (¬ root.Idle w ∧ root.nodes w = .error .busy w) ∨
    root.Idle w ∧ ∃ w', root.nodes w = .ok root.firsts w' ∧ w.Lends root.firsts w' := by
  have empty : Found root w root [] := ⟨List.nil_subset _, nofun, nofun⟩
  have lends : w.Lends (root :: [] ++ []) (w.shared root.node) :=
    (World.Lends.none w).shared (intact.live _ (node_mem_ids root))
  have entered : root.nodes w = walk [] [root] (w.shared root.node) := rfl
  rw [entered, firsts_eq]
  refine (walk_over intact (mem_subs_self root) _ _ _ empty (List.nil_subset _) lends).imp_right ?_
  rintro ⟨idle, w', ran, lends'⟩
  refine ⟨idle, w', ?_, lends'⟩
  rw [ran, walk, pure_apply]

/-- Listing the variables of the nodes of a graph lists the variables of the graph, in the same order. -/
theorem gather_firsts (coherent : root.Coherent) :
    root.gather [] = (root.firsts.flatMap operands).eraseDupsBy fun x y => x.id == y.id := by
  rw [gather_eq, addNew_eq, ← addNewBy_nil, firsts_eq,
    addNewBy_flatMap operands fun s hs t ht => coherent s (by simpa using hs) t (by simpa using ht)]
  rfl

end Relation

/-! ## Reports -/

/-- The reports on held relations count the owners without the handles, which are given up on the way. -/
theorem reportsOf_of_lends (distinct : (handles.map node).Nodup)
    (alive : ∀ s ∈ handles, w.live s.node = true) (h : w.Lends handles v) :
    reportsOf handles v = .ok (handles.map w.report) w := by
  induction handles generalizing v with
  | nil => rw [h.returned]; rfl
  | cons s rest ih =>
    obtain ⟨new, distinct⟩ := List.nodup_cons.mp distinct
    obtain ⟨here, later⟩ := List.forall_mem_cons.mp alive
    have once : mentions s.node (s :: rest) = 1 := by
      have absent : mentions s.node rest = 0 := by
        by_contra some
        obtain ⟨t, ht, same⟩ := mentions_pos.mp some
        exact new (same ▸ List.mem_map_of_mem ht)
      rw [mentions_cons, if_pos rfl, absent]
    have report : { v.report s with owners := (v.report s).owners - 1 } = w.report s := by
      simp only [World.report, World.kind, h.node, once, Nat.add_sub_cancel]
    rw [reportsOf, bind_apply, get_apply]
    simp only [bind_apply, h.release here, ih distinct later (h.disowned here), pure_apply, report,
      List.map_cons]

namespace Relation

theorem reports_of_idle (intact : Intact root w) (idle : root.Idle w) :
    root.reports w = .ok (root.firsts.map w.report) w := by
  rcases nodes_cases intact with ⟨met, -⟩ | ⟨-, w', ran, lends⟩
  · exact absurd idle met
  · rw [reports, bind_apply, ran]
    refine reportsOf_of_lends root.nodup_firsts (fun s hs => ?_) lends
    exact intact.live _ (List.mem_map_of_mem ((mem_firsts intact.coherent).mp hs))

/-- Every walk is interrupted at a relation that is being solved, and leaves everything as it was. -/
theorem walks_of_not_idle (intact : Intact root w) (busy : ¬ root.Idle w) :
    root.nodes w = .error .busy w ∧ root.vars w = .error .busy w ∧ root.reports w = .error .busy w := by
  have listed : root.nodes w = .error .busy w := by
    rcases nodes_cases intact with ⟨-, ended⟩ | ⟨idle, -⟩
    exacts [ended, absurd idle busy]
  obtain ⟨m, hm, met⟩ : ∃ m ∈ root.ids, (w.node m).busy = true := by
    simpa [Idle] using busy
  exact ⟨listed, vars_of_busy hm met, by rw [reports, bind_apply, listed]⟩

/-- **The walks through a graph agree**, if no part of it is being solved.  The nodes are listed each once and
completely, in the order in which the unfolded tree first has them.  The variables are those of the nodes
in this order, each at its first place.  And the reports, in the same order, show as many owners as the
nodes had before, and have again when the reports are drawn, by whatever draws them. -/
theorem walks_agree (intact : Intact root w) (idle : root.Idle w) :
    (∃ w', root.nodes w = .ok root.firsts w' ∧ w.Lends root.firsts w') ∧
    (root.firsts.map node).Nodup ∧ (∀ s, s ∈ root.firsts ↔ s ∈ root.subs) ∧
    root.vars w = .ok ((root.firsts.flatMap operands).eraseDupsBy fun x y => x.id == y.id) w ∧
    root.reports w = .ok (root.firsts.map w.report) w ∧
    (∀ s, (w.report s).row.getLast? = some (toString (w.node s.node).owners)) ∧
    ∀ (α : Type) (draw : List (List String) → Act κ σ α),
      root.drawReports draw w =
        draw (NodeReport.heads :: root.firsts.map fun s => (w.report s).row) w := by
  have reported := reports_of_idle intact idle
  refine ⟨?_, root.nodup_firsts, fun s => mem_firsts intact.coherent, ?_, reported, fun s => rfl,
    fun α draw => ?_⟩
  · rcases nodes_cases intact with ⟨met, -⟩ | ⟨-, listed⟩
    exacts [absurd idle met, listed]
  · rw [vars_of_idle idle, gather_firsts intact.coherent]
  · rw [drawReports, bind_apply, reported]
    dsimp only
    rw [List.map_map]
    rfl

/-- A domain is a part of a disjunction and of the conjunction beside it.  It is listed once, before the
conjunction, and shown with its two owners. -/
theorem shared_domain_is_listed_once :
    let x : Var := ⟨0, "X"⟩
    let digits : Relation Unit := .domain 0 x [.bool false, .bool true]
    let root : Relation Unit := .or 3 digits (.and 2 digits (.always 1))
    let build : Act Unit Unit (Relation Unit) := do
      let digits ← create fun n => .domain n x [.bool false, .bool true]
      digits.retain
      let holds ← create .always
      let rest ← create fun n => .and n digits holds
      create fun n => .or n digits rest
    ∃ w, build { client := () } = .ok root w ∧ Intact root w ∧ root.Idle w ∧
      root.reports w = .ok [⟨"Or", none, {}, 1⟩, ⟨"Domain", none, {}, 2⟩, ⟨"And", none, {}, 1⟩,
        ⟨"True", none, {}, 1⟩] w ∧ root.vars w = .ok [x] w := by
  intro x digits root build
  refine ⟨build.final { client := () }, rfl, ?_⟩
  have intact : Intact root (build.final { client := () }) := by
    refine ⟨fun s hs t ht same => ?_, by decide +kernel⟩
    simp only [root, digits, subs, List.mem_cons, List.mem_append, List.not_mem_nil, or_false] at hs ht
    rcases hs with rfl | rfl | rfl | rfl | rfl <;> rcases ht with rfl | rfl | rfl | rfl | rfl <;>
      first | rfl | cases same
  have idle : root.Idle (build.final { client := () }) := by
    unfold Idle
    decide +kernel
  obtain ⟨-, -, -, vars, reports, -⟩ := walks_agree intact idle
  exact ⟨intact, idle, reports.trans (congrArg (EStateM.Result.ok · _) (by decide +kernel)),
    vars.trans (congrArg (EStateM.Result.ok · _) (by decide +kernel))⟩

end Relation
end RelationSearch
