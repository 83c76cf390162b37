import Mathlib.Algebra.GroupWithZero.Nat
import RelationSearch.Proofs.Watches
import RelationSearch.Relation.Ownership

/-! # Who owns a node

A node is owned by the handles on it and by the slots of the nodes that have it as a part.  An *inventory*
(`Inventory`) lists the relations that were made and the handles that are held, and says that every node
counts its owners right.  Then just those nodes are live that can be reached from a handle
(`Inventory.live_iff_reaches`): a live node has an owner, and the owner of a part has a larger number than
the part, so that the way up ends at a handle.

Releasing a handle goes down in the same way.  A node that loses its last owner leaves its slots to its
two parts as if they were handles, which are then released in turn; so the inventory is right again
after each step (`Inventory.disown`), and the whole release is an induction on the relation
(`Inventory.release`).  Of all other nodes and of the bindings nothing changes (`Shed`).
-/
namespace RelationSearch

open Act RelationSearch.Relation

variable {κ σ : Type} {made held held' parts : List (Relation κ)} {r s t : Relation κ}
variable {w w' w'' : World κ σ} {n : Nat}

/-! ## Owners -/

/-- How many of some relations are the node `n`. -/
def mentions (n : Nat) (rs : List (Relation κ)) : Nat := rs.countP (·.node == n)

theorem mentions_append (n : Nat) (a b : List (Relation κ)) :
    mentions n (a ++ b) = mentions n a + mentions n b :=
  List.countP_append

theorem mentions_cons (n : Nat) (r : Relation κ) (rs : List (Relation κ)) :
    mentions n (r :: rs) = (if r.node = n then 1 else 0) + mentions n rs := by
  rw [mentions, List.countP_cons, Nat.add_comm]
  simp [mentions]

theorem mentions_pos {rs : List (Relation κ)} : mentions n rs ≠ 0 ↔ ∃ r ∈ rs, r.node = n := by
  rw [mentions, ← Nat.pos_iff_ne_zero, List.countP_pos_iff]
  simp

namespace World

/-- The node has an owner. -/
def live (w : World κ σ) (n : Nat) : Bool := (w.node n).owners != 0

/-- How many slots of live nodes point to the node `n`. -/
def slots (w : World κ σ) (made : List (Relation κ)) (n : Nat) : Nat :=
  (made.map fun s => if w.live s.node then mentions n s.parts else 0).sum

/-- The watches that a comparison has noted. -/
def entries (w : World κ σ) (s : Relation κ) : List (Var × Nat) :=
  match s, (w.node s.node).progress with
  | .compare .., .fired entries => entries
  | _, _ => []

/-- The watches that a live comparison has noted. -/
def recorded (w : World κ σ) (s : Relation κ) : List (Var × Nat) :=
  if w.live s.node then w.entries s else []

/-- The world after a node has got one more owner. -/
def shared (w : World κ σ) (n : Nat) : World κ σ :=
  w.modifyNode n fun node => { node with owners := node.owners + 1 }

/-- The world after a node has lost an owner. -/
def disowned (w : World κ σ) (n : Nat) : World κ σ :=
  w.modifyNode n fun node => { node with owners := node.owners - 1 }

theorem live_eq_true : w.live n = true ↔ (w.node n).owners ≠ 0 := by
  simp [live]

theorem live_congr (same : (w'.node n).owners = (w.node n).owners) : w'.live n = w.live n := by
  rw [live, live, same]

theorem entries_of_compared (plain : s.compared = []) : w.entries s = [] := by
  cases s with
  | compare => cases plain
  | _ => rfl

theorem entries_of_fired {x y : Var} {c : Comparison κ} {entries : List (Var × Nat)}
    (fired : (w.node n).progress = .fired entries) : w.entries (.compare n x y c) = entries := by
  unfold World.entries
  rw [Relation.node, fired]

theorem entries_of_unfired {x y : Var} {c : Comparison κ}
    (unfired : ∀ entries, (w.node n).progress ≠ .fired entries) :
    w.entries (.compare n x y c) = [] := by
  unfold World.entries
  cases progress : (w.node n).progress with
  | fired entries => exact absurd progress (unfired entries)
  | _ => rw [Relation.node, progress]

theorem entries_congr (same : (w'.node s.node).progress = (w.node s.node).progress) :
    w'.entries s = w.entries s := by
  unfold entries
  rw [same]

theorem node_shared_of_ne {m : Nat} (ne : n ≠ m) : (w.shared n).node m = w.node m :=
  node_modifyNode_of_ne _ _ ne

@[simp] theorem progress_shared (w : World κ σ) (n m : Nat) :
    ((w.shared n).node m).progress = (w.node m).progress := by
  refine field_modifyNode Node.progress ?_ w n m
  exact fun _ => rfl

theorem live_shared (alive : w.live n = true) (m : Nat) : (w.shared n).live m = w.live m := by
  by_cases ne : n = m
  · rw [← ne, alive, live_eq_true, shared, node_modifyNode_self]
    exact Nat.succ_ne_zero _
  · rw [live, node_shared_of_ne ne, live]

theorem owners_disowned_self (w : World κ σ) (n : Nat) :
    ((w.disowned n).node n).owners = (w.node n).owners - 1 := by
  rw [disowned, node_modifyNode_self]

theorem node_disowned_of_ne {m : Nat} (ne : n ≠ m) : (w.disowned n).node m = w.node m :=
  node_modifyNode_of_ne _ _ ne

@[simp] theorem progress_disowned (w : World κ σ) (n m : Nat) :
    ((w.disowned n).node m).progress = (w.node m).progress := by
  refine field_modifyNode Node.progress ?_ w n m
  exact fun _ => rfl

@[simp] theorem owners_noted (w : World κ σ) (n : Nat) (p : Progress) (m : Nat) :
    ((w.noted n p).node m).owners = (w.node m).owners := by
  refine field_modifyNode Node.owners ?_ w n m
  exact fun _ => rfl

theorem size_noted (here : n < w.nodes.size) (p : Progress) :
    (w.noted n p).nodes.size = w.nodes.size :=
  Table.size_modify_of_lt _ _ here

@[simp] theorem nodes_dropAll (w : World κ σ) (entries : List (Var × Nat)) :
    (w.dropAll entries).nodes = w.nodes := by
  induction entries generalizing w with
  | nil => rfl
  | cons entry rest ih => exact ih _

theorem slots_congr (same : ∀ s ∈ made, w'.live s.node = w.live s.node) (n : Nat) :
    w'.slots made n = w.slots made n := by
  unfold slots
  rw [List.map_congr_left fun s hs => by rw [same s hs]]

theorem slots_pos : w.slots made n ≠ 0 ↔
    ∃ s ∈ made, w.live s.node = true ∧ ∃ t ∈ s.parts, t.node = n := by
  rw [slots, ← Nat.pos_iff_ne_zero, List.sum_pos_iff_exists_pos_nat]
  simp only [List.mem_map, exists_exists_and_eq_and]
  refine exists_congr fun s => and_congr_right fun _ => ?_
  rw [← mentions_pos, Nat.pos_iff_ne_zero]
  simp

end World

theorem SameBusy.disowned (w : World κ σ) (n : Nat) : SameBusy w (w.disowned n) :=
  .modifyNode w n fun _ => rfl

theorem disown_apply (n : Nat) (w : World κ σ) :
    (disown n : Act κ σ Bool) w = .ok (!(w.disowned n).live n) (w.disowned n) := by
  simp only [disown, bind_apply, modify_apply, get_apply, pure_apply, World.live, bne, Bool.not_not]
  rfl

/-- Of two sums that differ in one item, one has what the other has and the difference. -/
theorem sum_map_of_one {f g : Relation κ → Nat} {c : Nat} (distinct : (made.map node).Nodup)
    (hr : r ∈ made) (other : ∀ s ∈ made, s.node ≠ r.node → f s = g s) (here : f r = g r + c) :
    (made.map f).sum = (made.map g).sum + c := by
  induction made with
  | nil => cases hr
  | cons s rest ih =>
    obtain ⟨new, distinct⟩ := List.nodup_cons.mp distinct
    rw [List.map_cons, List.map_cons, List.sum_cons, List.sum_cons]
    rcases List.mem_cons.mp hr with rfl | hr
    · have same : rest.map f = rest.map g := List.map_congr_left fun t ht =>
        other t (List.mem_cons_of_mem _ ht) fun e => new (e ▸ List.mem_map_of_mem ht)
      rw [same, here]
      omega
    · have ne : s.node ≠ r.node := fun e => new (e ▸ List.mem_map_of_mem hr)
      rw [ih distinct hr fun t ht => other t (List.mem_cons_of_mem _ ht),
        other s (List.mem_cons_self ..) ne]
      omega

/-! ## Inventories -/

/-- A handle leads to the relation. -/
def Reaches (held : List (Relation κ)) (s : Relation κ) : Prop := ∃ r ∈ held, s ∈ r.subs

/-- The relations that were made, by number, and the handles that are held on some of them.  Every node
counts the handles on it and the slots of live nodes that point to it. -/
structure Inventory (made held : List (Relation κ)) (w : World κ σ) : Prop where
  numbers : made.map node = List.range w.nodes.size
  parts : ∀ s ∈ made, ∀ t ∈ s.parts, t ∈ made ∧ t.node < s.node
  known : ∀ r ∈ held, r ∈ made
  owners : ∀ n, (w.node n).owners = mentions n held + w.slots made n

namespace Inventory

theorem distinct (h : Inventory made held w) : (made.map node).Nodup :=
  h.numbers ▸ List.nodup_range

theorem unique (h : Inventory made held w) (hs : s ∈ made) (ht : t ∈ made)
    (same : s.node = t.node) : s = t :=
  List.inj_on_of_nodup_map h.distinct hs ht same

theorem node_lt (h : Inventory made held w) (hs : s ∈ made) : s.node < w.nodes.size :=
  List.mem_range.mp (h.numbers ▸ List.mem_map_of_mem hs)

theorem subs (h : Inventory made held w) (hr : r ∈ made) : ∀ s ∈ r.subs, s ∈ made :=
  forall_subs hr fun t ht s hs => (h.parts t ht s hs).1

theorem mem_of_reaches (h : Inventory made held w) (reached : Reaches held s) : s ∈ made := by
  obtain ⟨r, hr, hs⟩ := reached
  exact h.subs (h.known r hr) s hs

theorem coherent (h : Inventory made held w) (hr : r ∈ made) : r.Coherent :=
  fun _ hs _ ht same => h.unique (h.subs hr _ hs) (h.subs hr _ ht) same

/-- The same owners, differently listed. -/
theorem perm (h : Inventory made held w) (same : held.Perm held') : Inventory made held' w where
  numbers := h.numbers
  parts := h.parts
  known r hr := h.known r (same.mem_iff.mpr hr)
  owners n := by
    rw [h.owners, mentions, mentions, same.countP_eq]

/-- What changes no owner and makes no node leaves the inventory right. -/
theorem same_owners (h : Inventory made held w) (size : w'.nodes.size = w.nodes.size)
    (same : ∀ n, (w'.node n).owners = (w.node n).owners) : Inventory made held w' where
  numbers := size ▸ h.numbers
  parts := h.parts
  known := h.known
  owners n := by
    rw [same, h.owners, World.slots_congr fun s _ => World.live_congr (same s.node)]

/-! ## Live nodes -/

theorem live_of_held (h : Inventory made held w) (hr : r ∈ held) : w.live r.node = true := by
  have some : mentions r.node held ≠ 0 := mentions_pos.mpr ⟨r, hr, rfl⟩
  rw [World.live_eq_true, h.owners]
  omega

theorem live_of_part (h : Inventory made held w) (hs : s ∈ made) (live : w.live s.node = true)
    (ht : t ∈ s.parts) : w.live t.node = true := by
  have some : w.slots made t.node ≠ 0 := World.slots_pos.mpr ⟨s, hs, live, t, ht, rfl⟩
  rw [World.live_eq_true, h.owners]
  omega

theorem live_of_sub (h : Inventory made held w) (hr : r ∈ made) (live : w.live r.node = true) :
    ∀ s ∈ r.subs, w.live s.node = true := by
  have both : ∀ s ∈ r.subs, s ∈ made ∧ w.live s.node = true :=
    forall_subs ⟨hr, live⟩ fun t ⟨ht, alive⟩ s hs =>
      ⟨(h.parts t ht s hs).1, h.live_of_part ht alive hs⟩
  exact fun s hs => (both s hs).2

/-- A live node has an owner.  If that is not a handle, it is a live node with a larger number, and so on
until the numbers come to an end. -/
theorem reaches_of_live (h : Inventory made held w) (hs : s ∈ made) (live : w.live s.node = true) :
    Reaches held s := by
  induction left : w.nodes.size - s.node using Nat.strongRecOn generalizing s with
  | ind left ih =>
    have owned := World.live_eq_true.mp live
    rw [h.owners] at owned
    by_cases handled : mentions s.node held = 0
    · obtain ⟨t, ht, alive, p, hp, same⟩ := World.slots_pos.mp (by omega : w.slots made s.node ≠ 0)
      obtain ⟨hm, older⟩ := h.parts t ht p hp
      obtain rfl := h.unique hm hs same
      have := h.node_lt ht
      obtain ⟨r, hr, above⟩ := ih _ (by omega) ht alive rfl
      exact ⟨r, hr, mem_subs_of_part hp above⟩
    · obtain ⟨r, hr, same⟩ := mentions_pos.mp handled
      obtain rfl := h.unique (h.known r hr) hs same
      exact ⟨r, hr, mem_subs_self r⟩

/-- **Just those nodes are live that can be reached from a handle.** -/
theorem live_iff_reaches (h : Inventory made held w) (hs : s ∈ made) :
    w.live s.node = true ↔ Reaches held s := by
  constructor
  · exact h.reaches_of_live hs
  · rintro ⟨r, hr, sub⟩
    exact h.live_of_sub (h.known r hr) (h.live_of_held hr) s sub

/-! ## Making and cloning -/

/-- A new relation takes over the handles on its parts. -/
theorem create (h : Inventory made (r.parts ++ held) w) (number : r.node = w.nodes.size) :
    Inventory (made ++ [r]) (r :: held) w.added := by
  have older {t : Relation κ} (ht : t ∈ r.parts ++ held) : t.node < w.nodes.size :=
    h.node_lt (h.known t ht)
  have size : w.added.nodes.size = w.nodes.size + 1 := Table.size_push ..
  have same {m : Nat} (hm : m < w.nodes.size) : w.added.node m = w.node m :=
    World.node_added_of_lt hm
  have alive : w.added.live r.node = true := by
    rw [World.live_eq_true, number, World.node_added]
    exact Nat.one_ne_zero
  have slots (n : Nat) : w.added.slots (made ++ [r]) n = w.slots made n + mentions n r.parts := by
    have old : w.added.slots made n = w.slots made n :=
      World.slots_congr (fun s hs => by rw [World.live, same (h.node_lt hs), World.live]) n
    rw [← old, World.slots, List.map_append, List.sum_append]
    simp [World.slots, alive]
  refine { numbers := ?numbers, parts := ?parts, known := ?known, owners := fun n => ?owners }
  case numbers =>
    rw [List.map_append, h.numbers, size, List.range_succ, List.map_singleton, number]
  case parts =>
    intro s hs t ht
    rcases List.mem_append.mp hs with hs | hs
    · exact ⟨List.mem_append_left _ (h.parts s hs t ht).1, (h.parts s hs t ht).2⟩
    · obtain rfl := List.mem_singleton.mp hs
      have part := List.mem_append_left held ht
      exact ⟨List.mem_append_left _ (h.known t part), number ▸ older part⟩
  case known =>
    refine List.forall_mem_cons.mpr ⟨by simp, fun t ht => ?_⟩
    exact List.mem_append_left _ (h.known t (List.mem_append_right _ ht))
  case owners =>
    rw [slots, mentions_cons]
    by_cases new : n = w.nodes.size
    · have unborn := h.owners n
      rw [World.node, Table.get_of_size_le _ (Nat.le_of_eq new.symm), mentions_append] at unborn
      change 0 = _ at unborn
      rw [if_pos (number.trans new.symm), new, World.node_added, ← new]
      change 1 = _
      omega
    · have known := h.owners n
      rw [mentions_append] at known
      have unchanged : w.added.node n = w.node n := by
        rw [World.node, World.added, Table.get_push, if_neg new]
        rfl
      rw [if_neg fun e => new (e.symm.trans number), unchanged, known]
      omega

/-- Cloning a handle adds an owner to a live node. -/
theorem retain (h : Inventory made held w) (reached : Reaches held r) :
    Inventory made (r :: held) (w.shared r.node) := by
  have hr := h.mem_of_reaches reached
  have alive := (h.live_iff_reaches hr).mpr reached
  have size : (w.shared r.node).nodes.size = w.nodes.size :=
    Table.size_modify_of_lt _ _ (h.node_lt hr)
  refine ⟨size ▸ h.numbers, h.parts, List.forall_mem_cons.mpr ⟨hr, h.known⟩, fun n => ?_⟩
  rw [World.slots_congr fun s _ => World.live_shared alive s.node, mentions_cons]
  by_cases ne : r.node = n
  · rw [if_pos ne, ← ne, World.shared, World.node_modifyNode_self]
    change (w.node r.node).owners + 1 = _
    rw [h.owners]
    omega
  · rw [if_neg ne, World.node_shared_of_ne ne, h.owners, Nat.zero_add]

/-! ## Losing an owner -/

theorem size_disowned (h : Inventory made held w) (hr : r ∈ made) :
    (w.disowned r.node).nodes.size = w.nodes.size :=
  Table.size_modify_of_lt _ _ (h.node_lt hr)

/-- **A node loses an owner.**  If it was the last one, the slots of the node are left to its parts as
handles. -/
theorem disown (h : Inventory made (r :: held) w) :
    Inventory made ((if (w.disowned r.node).live r.node then [] else r.parts) ++ held)
      (w.disowned r.node) := by
  have hr : r ∈ made := h.known r (List.mem_cons_self ..)
  have alive : w.live r.node = true := h.live_of_held (List.mem_cons_self ..)
  have held' : ∀ t ∈ held, t ∈ made := fun t ht => h.known t (List.mem_cons_of_mem _ ht)
  have live {s : Relation κ} (ne : s.node ≠ r.node) :
      (w.disowned r.node).live s.node = w.live s.node := by
    rw [World.live, World.node_disowned_of_ne ne.symm, World.live]
  have numbers := (h.size_disowned hr).symm ▸ h.numbers
  -- What is counted on the right is what was counted, less the handle that is gone.
  have owners (n : Nat) (rest : Nat) (counted : w.slots made n + mentions n held = rest) :
      ((w.disowned r.node).node n).owners = rest := by
    have before := h.owners n
    rw [mentions_cons] at before
    by_cases here : r.node = n
    · rw [if_pos here] at before
      rw [← here, World.owners_disowned_self, here]
      omega
    · rw [if_neg here] at before
      rw [World.node_disowned_of_ne here]
      omega
  split
  · rename_i still
    refine ⟨numbers, h.parts, held', fun n => owners n _ ?_⟩
    have same : (w.disowned r.node).slots made n = w.slots made n :=
      World.slots_congr (fun s _ => by
      by_cases ne : s.node = r.node
      · rw [ne, still, alive]
      · exact live ne) n
    rw [same, List.nil_append, Nat.add_comm]
  · rename_i gone
    refine ⟨numbers, h.parts, fun t ht => ?_, fun n => owners n _ ?_⟩
    · rcases List.mem_append.mp ht with ht | ht
      · exact (h.parts r hr t ht).1
      · exact held' t ht
    · have slots : w.slots made n = (w.disowned r.node).slots made n + mentions n r.parts := by
        refine sum_map_of_one h.distinct hr (fun s _ ne => by rw [live ne]) ?_
        rw [if_pos alive, if_neg gone, Nat.zero_add]
      rw [slots, mentions_append]
      omega

end Inventory

/-! ## What goes with a release -/

/-- The nodes that were live in the first world and are not in the second. -/
def World.gone (w w' : World κ σ) (made : List (Relation κ)) : List (Relation κ) :=
  made.filter fun s => w.live s.node && !w'.live s.node

theorem World.mem_gone :
    s ∈ w.gone w' made ↔ s ∈ made ∧ w.live s.node = true ∧ w'.live s.node = false := by
  simp [gone]

/-- Of the variables, only the watches in the list are gone, and the others are in their order. -/
def Stripped (entries : List (Var × Nat)) (w w' : World κ σ) : Prop :=
  ∀ x, w'.cell x = { w.cell x with
    watches := (w.cell x).watches.filter fun watch => !listed entries x watch.id }

/-- Some nodes have lost owners, and those that lost the last one are gone.  All others are as they were,
and so are the variables, but for the watches of the comparisons that are gone. -/
structure Shed (made : List (Relation κ)) (w w' : World κ σ) : Prop where
  busy : SameBusy w w'
  owners : ∀ n, (w'.node n).owners ≤ (w.node n).owners
  node : ∀ n, w'.live n = true → w'.node n = { w.node n with owners := (w'.node n).owners }
  cells : Stripped ((w.gone w' made).flatMap w.recorded) w w'

theorem listed_flatMap {f : Relation κ → List (Var × Nat)} {x : Var} {id : Nat} :
    listed (made.flatMap f) x id = true ↔ ∃ s ∈ made, listed (f s) x id = true := by
  rw [listed, List.any_flatMap, List.any_eq_true]
  rfl

namespace Shed

theorem live (h : Shed made w w') (live : w'.live n = true) : w.live n = true := by
  rw [World.live_eq_true] at live ⊢
  have := h.owners n
  omega

theorem recorded (h : Shed made w w') (live : w'.live s.node = true) :
    w'.recorded s = w.recorded s := by
  rw [World.recorded, if_pos live, World.recorded, if_pos (h.live live)]
  exact World.entries_congr (by rw [h.node _ live])

/-- What is gone after two releases was gone after the first, or went with the second. -/
theorem listed_gone (h : Shed made w w') (g : Shed made w' w'') (x : Var) (id : Nat) :
    listed ((w.gone w'' made).flatMap w.recorded) x id =
      (listed ((w.gone w' made).flatMap w.recorded) x id ||
        listed ((w'.gone w'' made).flatMap w'.recorded) x id) := by
  rw [Bool.eq_iff_iff, Bool.or_eq_true, listed_flatMap, listed_flatMap, listed_flatMap]
  simp only [World.mem_gone]
  constructor
  · rintro ⟨s, ⟨hs, alive, ended⟩, noted⟩
    cases between : w'.live s.node with
    | false => exact .inl ⟨s, ⟨hs, alive, between⟩, noted⟩
    | true => exact .inr ⟨s, ⟨hs, between, ended⟩, (h.recorded between).symm ▸ noted⟩
  · rintro (⟨s, ⟨hs, alive, ended⟩, noted⟩ | ⟨s, ⟨hs, between, ended⟩, noted⟩)
    · refine ⟨s, ⟨hs, alive, ?_⟩, noted⟩
      rw [← Bool.not_eq_true] at ended ⊢
      exact fun live => ended (g.live live)
    · exact ⟨s, ⟨hs, h.live between, ended⟩, h.recorded between ▸ noted⟩

theorem trans (h : Shed made w w') (g : Shed made w' w'') : Shed made w w'' where
  busy := SameBusy.steady.trans h.busy g.busy
  owners n := Nat.le_trans (g.owners n) (h.owners n)
  node n live := by
    rw [g.node n live, h.node n (g.live live)]
  cells x := by
    rw [g.cells x, h.cells x]
    simp only [List.filter_filter, h.listed_gone g, Bool.not_or]
    congr 2
    funext watch
    exact Bool.and_comm ..

/-- A node that still has an owner is not gone, and a node that is gone takes its watches with it. -/
theorem of_disowned (h : Inventory made (r :: held) w) (busy : SameBusy (w.disowned r.node) w')
    (nodes : ∀ m, (w'.node m).owners = ((w.disowned r.node).node m).owners)
    (same : ∀ m, w'.live m = true → w'.node m = (w.disowned r.node).node m)
    (cells : ∀ x, w'.cell x = (w.dropAll (if w'.live r.node then [] else w.entries r)).cell x) :
    Shed made w w' := by
  have hr : r ∈ made := h.known r (List.mem_cons_self ..)
  have alive : w.live r.node = true := h.live_of_held (List.mem_cons_self ..)
  have live {m : Nat} (ne : r.node ≠ m) : w'.live m = w.live m := by
    rw [World.live_congr (nodes m), World.live, World.node_disowned_of_ne ne, World.live]
  -- Of what is noted by relations that are gone, all is this node's.
  have noted (x : Var) (id : Nat) : listed ((w.gone w' made).flatMap w.recorded) x id =
      listed (if w'.live r.node then [] else w.entries r) x id := by
    have own : w.recorded r = w.entries r := if_pos alive
    rw [Bool.eq_iff_iff, listed_flatMap]
    simp only [World.mem_gone]
    constructor
    · rintro ⟨s, ⟨hs, before, ended⟩, noted⟩
      by_cases ne : r.node = s.node
      · obtain rfl := h.unique hr hs ne
        rw [ended]
        exact own ▸ noted
      · rw [live ne, before] at ended
        cases ended
    · intro noted
      cases ended : w'.live r.node with
      | true => rw [ended] at noted; cases noted
      | false => rw [ended] at noted; exact ⟨r, ⟨hr, alive, ended⟩, own.symm ▸ noted⟩
  refine {
    busy := SameBusy.steady.trans (.disowned w _) busy
    owners := fun m => ?owners
    node := fun m still => ?node
    cells := fun x => ?cells }
  case owners =>
    rw [nodes]
    by_cases ne : r.node = m
    · rw [← ne, World.owners_disowned_self]
      exact Nat.sub_le ..
    · exact Nat.le_of_eq (congrArg Node.owners (World.node_disowned_of_ne ne))
  case node =>
    rw [same m still]
    by_cases ne : r.node = m
    · rw [← ne, World.disowned, World.node_modifyNode_self]
    · rw [World.node_disowned_of_ne ne]
  case cells =>
    rw [cells, World.cell_dropAll]
    simp only [noted]

end Shed

/-! ## Releasing -/

namespace Inventory

/-- A node without parts and watches is given up. -/
theorem disown_plain (h : Inventory made (r :: held) w) (plain : r.compared = []) :
    Shed made w (w.disowned r.node) := by
  refine .of_disowned h (fun _ => rfl) (fun _ => rfl) (fun _ _ => rfl) fun x => ?_
  rw [World.entries_of_compared plain, ite_self]
  rfl

theorem release_last {x y : Var} {c : Comparison κ} (last : (w.disowned n).live n = false) :
    (Relation.compare n x y c).release w = match (w.node n).progress with
      | .fired entries => .ok ⟨⟩ (((w.disowned n).dropAll entries).noted n (.fired []))
      | _ => .ok ⟨⟩ (w.disowned n) := by
  rw [Relation.release, bind_apply, disown_apply, last]
  simp only [Bool.not_false, if_true, bind_apply, progress_apply, World.progress_disowned]
  cases (w.node n).progress with
  | fired entries =>
    dsimp only
    rw [bind_apply, dropWatches_apply]
    rfl
  | _ => rfl

/-- A comparison that goes with its last owner takes its watches along, and notes that it has none. -/
theorem disown_fired {x y : Var} {c : Comparison κ} {entries : List (Var × Nat)}
    (h : Inventory made (.compare n x y c :: held) w) (after : Inventory made held (w.disowned n))
    (last : (w.disowned n).live n = false) (fired : (w.node n).progress = .fired entries) :
    Inventory made held (((w.disowned n).dropAll entries).noted n (.fired [])) ∧
      Shed made w (((w.disowned n).dropAll entries).noted n (.fired [])) := by
  have known : Relation.compare n x y c ∈ made := h.known _ (List.mem_cons_self ..)
  have noted : w.entries (.compare n x y c) = entries := World.entries_of_fired fired
  have owners (m : Nat) : ((((w.disowned n).dropAll entries).noted n (.fired [])).node m).owners =
      ((w.disowned n).node m).owners := by
    rw [World.owners_noted, World.node_dropAll]
  have size : (((w.disowned n).dropAll entries).noted n (.fired [])).nodes.size =
      (w.disowned n).nodes.size := by
    have here : n < ((w.disowned n).dropAll entries).nodes.size := by
      rw [World.nodes_dropAll]
      exact Nat.lt_of_lt_of_eq (h.node_lt known) (h.size_disowned known).symm
    rw [World.size_noted here, World.nodes_dropAll]
  have busy : SameBusy (w.disowned n) (((w.disowned n).dropAll entries).noted n (.fired [])) :=
    SameBusy.steady.trans (.of_node fun _ => World.node_dropAll ..) (.noted _ _ _)
  refine ⟨after.same_owners size owners, .of_disowned h busy owners (fun m alive => ?_) fun z => ?_⟩
  · have ne : n ≠ m := by
      rintro rfl
      rw [World.live_congr (owners n), last] at alive
      cases alive
    rw [World.node_noted_of_ne _ _ _ ne, World.node_dropAll, Relation.node]
  · rw [World.live_congr (owners _), Relation.node, last, noted, World.cell_noted,
      World.cell_dropAll, if_neg Bool.false_ne_true, World.cell_dropAll]
    rfl

theorem release_compare {x y : Var} {c : Comparison κ}
    (h : Inventory made (.compare n x y c :: held) w) :
    ∃ w', (Relation.compare n x y c).release w = .ok ⟨⟩ w' ∧ Inventory made held w' ∧
      Shed made w w' := by
  have after := h.disown
  change Inventory made ((if (w.disowned n).live n then [] else []) ++ held)
    (w.disowned n) at after
  rw [ite_self, List.nil_append] at after
  cases live : (w.disowned n).live n with
  | true =>
    refine ⟨w.disowned n, ?_, after, .of_disowned h (fun _ => rfl) (fun _ => rfl)
      (fun _ _ => rfl) fun x => ?_⟩
    · simp [Relation.release, disown_apply, live]
    · rw [Relation.node, live]
      rfl
  | false =>
    have ran := release_last (x := x) (y := y) (c := c) live
    cases progress : (w.node n).progress with
    | fired entries =>
      rw [progress] at ran
      exact ⟨_, ran, h.disown_fired after live progress⟩
    | _ =>
      have none := World.entries_of_unfired (x := x) (y := y) (c := c) (w := w) (n := n)
        (by simp [progress])
      rw [progress] at ran
      refine ⟨_, ran, after, .of_disowned h (fun _ => rfl) (fun _ => rfl)
        (fun _ _ => rfl) fun z => ?_⟩
      rw [none, ite_self]
      rfl

/-- **Releasing a handle** comes back, and leaves an inventory without the handle. -/
theorem release (h : Inventory made (r :: held) w) :
    ∃ w', r.release w = .ok ⟨⟩ w' ∧ Inventory made held w' ∧ Shed made w w' := by
  induction r generalizing held w with
  | and n l r ihl ihr | or n l r ihl ihr =>
    have shed := h.disown_plain rfl
    have after := h.disown
    change Shed made w (w.disowned n) at shed
    change Inventory made ((if (w.disowned n).live n then [] else [l, r]) ++ held) (w.disowned n)
      at after
    cases live : (w.disowned n).live n with
    | true =>
      refine ⟨w.disowned n, ?_, by simpa [live] using after, shed⟩
      simp [Relation.release, disown_apply, live]
    | false =>
      have parts : Inventory made (l :: r :: held) (w.disowned n) := by simpa [live] using after
      obtain ⟨w₁, ranL, afterL, shedL⟩ := ihl parts
      obtain ⟨w₂, ranR, afterR, shedR⟩ := ihr afterL
      refine ⟨w₂, ?_, afterR, (shed.trans shedL).trans shedR⟩
      simp [Relation.release, disown_apply, live, ranL, ranR]
  | compare n x y c => exact h.release_compare
  | domain | convert | predicate | always | never =>
    have after := h.disown
    rw [Relation.parts, ite_self, List.nil_append] at after
    refine ⟨_, ?_, after, h.disown_plain rfl⟩
    rw [Relation.release, bind_apply, disown_apply]
    all_goals first | rfl | simp

end Inventory

end RelationSearch
