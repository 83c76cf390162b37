import RelationSearch.Proofs.Quiet
import RelationSearch.Proofs.Registry

/-! # What a client may do

A client makes relations, clones and gives up its handles, offers values to variables, solves and resets
relations (`Errand`, `History`).  The callbacks of its relations are run in the middle of a search and
may do all this as well, nested to any depth; only to give a handle up they have to wait until no call
is under way.  Which handles the client holds is read off its own state (`holds`).

Whatever it does, the books stay in order (`Audited`): every node counts its owners right, and the watches
at the variables are those that live comparisons have noted.  A search is made of steps that
leave both alone, of turns of comparisons, and of callbacks, for which the books are in order by
induction (`Sound.conducts`); so is what a whole history leaves behind (`History.books`).
-/
namespace RelationSearch

open Act RelationSearch.Relation

variable {κ σ : Type} {call : Caller κ σ} {fuel : Nat} {made held held' : List (Relation κ)}
variable {r s t : Relation κ} {w w' u v : World κ σ} {n : Nat} {x y : Var} {c : Comparison κ}

theorem SameBusy.watching (w : World κ σ) (n : Nat) (x y : Var) (c : Comparison κ) :
    SameBusy w (w.watching n x y c) := by
  refine SameBusy.steady.trans (.noted w n (.fired [])) (SameBusy.steady.trans ?_ (.noted _ _ _))
  exact .of_node fun m => by rw [World.node_deferred, World.node_deferred]

/-! ## The books -/

/-- Owners are counted right, and watches are noted right. -/
structure Audited (made held : List (Relation κ)) (w : World κ σ) : Prop where
  inventory : Inventory made held w
  registry : WatchRegistry made w

/-- Nodes and watches are the same, up to names and counters. -/
structure Elsewhere (w w' : World κ σ) : Prop where
  size : w'.nodes.size = w.nodes.size
  busy : SameBusy w w'
  owners : ∀ n, (w'.node n).owners = (w.node n).owners
  progress : ∀ n, (w'.node n).progress = (w.node n).progress
  watches : ∀ x, (w'.cell x).watches = (w.cell x).watches
  nextWatch : ∀ x, (w'.cell x).nextWatch = (w.cell x).nextWatch

namespace Audited

theorem perm (h : Audited made held w) (same : held.Perm held') : Audited made held' w :=
  ⟨h.inventory.perm same, h.registry⟩

/-- The same owners, watches and notes. -/
theorem same (h : Audited made held w) (size : w'.nodes.size = w.nodes.size)
    (owners : ∀ n, (w'.node n).owners = (w.node n).owners)
    (entries : ∀ s ∈ made, w'.entries s = w.entries s)
    (cells : ∀ x, (w'.cell x).watches = (w.cell x).watches ∧
      (w'.cell x).nextWatch = (w.cell x).nextWatch) : Audited made held w' where
  inventory := h.inventory.same_owners size owners
  registry := h.registry.same
    (fun s hs => World.recorded_of_entries (entries s hs) (World.live_congr (owners _)))
    (fun x => (cells x).1) fun x => (cells x).2

theorem elsewhere (h : Audited made held w) (calm : Elsewhere w w') : Audited made held w' :=
  h.same calm.size calm.owners (fun s _ => World.entries_congr (calm.progress s.node))
    fun x => ⟨calm.watches x, calm.nextWatch x⟩

section Nodes

variable (h : Audited made held w) (hs : s ∈ made)
include h hs

theorem size_modifyNode (f : Node → Node) :
    (w.modifyNode s.node f).nodes.size = w.nodes.size :=
  Table.size_modify_of_lt _ _ (h.inventory.node_lt hs)

/-- Marks and counters are not in the books. -/
theorem modifyNode {f : Node → Node}
    (same : ∀ node : Node, (f node).owners = node.owners ∧ (f node).progress = node.progress) :
    Audited made held (w.modifyNode s.node f) :=
  h.same (h.size_modifyNode hs f)
    (World.field_modifyNode Node.owners (fun node => (same node).1) w s.node)
    (fun t _ => World.entries_congr
      (World.field_modifyNode Node.progress (fun node => (same node).2) w s.node t.node))
    fun _ => ⟨rfl, rfl⟩

/-- Where a relation pauses is not in the books, unless it is a comparison. -/
theorem noted (plain : s.compared = []) (p : Progress) : Audited made held (w.noted s.node p) := by
  refine h.same (h.size_modifyNode hs _) (World.owners_noted w s.node p) (fun t ht => ?_)
    fun _ => ⟨rfl, rfl⟩
  by_cases ne : t = s
  · rw [ne, World.entries_of_compared plain, World.entries_of_compared plain]
  · refine h.inventory.entries_of_ne hs (fun m other => ?_) t ht ne
    rw [World.node_noted_of_ne _ _ _ other]

end Nodes

section Comparisons

variable (h : Audited made held w) (hs : Relation.compare n x y c ∈ made) (alive : w.live n = true)
include h hs alive

omit alive in
/-- A comparison has noted that it has no watches, and it had none. -/
theorem blank (unfired : ∀ entries, (w.node n).progress ≠ .fired entries) :
    Audited made held (w.noted n (.fired [])) :=
  h.same (World.size_noted (h.inventory.node_lt hs) _) (World.owners_noted w n _)
    (h.inventory.entries_blank hs unfired) fun _ => ⟨rfl, rfl⟩

/-- A comparison has noted that it left watches at its unbound operands. -/
theorem watching (unfired : ∀ entries, (w.node n).progress ≠ .fired entries) :
    Audited made held (w.watching n x y c) := by
  refine ⟨h.inventory.same_owners ?_ fun m => ?_, h.registry.watching h.inventory hs alive unfired⟩
  · have here : n < w.nodes.size := h.inventory.node_lt hs
    rw [World.watching, World.size_noted, World.nodes_deferred, World.nodes_deferred,
      World.size_noted here]
    rwa [World.nodes_deferred, World.nodes_deferred, World.size_noted here]
  · rw [World.watching, World.owners_noted, World.node_deferred, World.node_deferred,
      World.owners_noted]

/-- A comparison's watches are gone, and it has noted that it has none. -/
theorem dropped {p : Progress} (none : ∀ entries, p = .fired entries → entries = []) :
    Audited made held ((w.dropAll (w.entries (.compare n x y c))).noted n p) := by
  generalize hv : w.dropAll (w.entries (.compare n x y c)) = v
  have node (m : Nat) : v.node m = w.node m := by rw [← hv, World.node_dropAll]
  have size : v.nodes.size = w.nodes.size := by rw [← hv, World.nodes_dropAll]
  have owners (m : Nat) : ((v.noted n p).node m).owners = (w.node m).owners := by
    rw [World.owners_noted, node]
  have noted : (v.noted n p).entries (.compare n x y c) = [] := by
    have progress := World.progress_noted v n p
    cases p with
    | fired entries => rw [World.entries_of_fired progress, none entries rfl]
    | _ => exact World.entries_of_unfired fun entries fired => nomatch progress.symm.trans fired
  refine ⟨h.inventory.same_owners ?_ owners, h.registry.drop hs alive
    (fun _ => World.live_congr (owners _)) (h.inventory.entries_of_ne hs fun m other => ?_) noted
    fun z => by rw [World.cell_noted, hv]⟩
  · exact (World.size_noted (size ▸ h.inventory.node_lt hs) p).trans size
  · rw [World.node_noted_of_ne v n p other, node]

end Comparisons

theorem record (h : Audited made held w) (event : World κ σ → Event) :
    Audited made held (w.record event) := by
  refine h.same ?_ (fun m => by rw [World.node_record])
    (fun t _ => World.entries_congr (by rw [World.node_record]))
    fun x => ⟨by rw [World.cell_record], by rw [World.cell_record]⟩
  unfold World.record
  split <;> rfl

/-- Bindings are not in the books. -/
theorem modifyCell (h : Audited made held w) (x : Var) {f : Cell κ → Cell κ}
    (keeps : Cell.KeepsWatches f) : Audited made held (w.modifyCell x f) :=
  h.same rfl (fun _ => rfl) (fun _ _ => rfl) (keeps.modifyCell w x)

end Audited

/-! ## Construction -/

/-- What becomes of some handles when relations are made from them and handles are cloned. -/
inductive Assembly : List (Relation κ) → World κ σ → List (Relation κ) → World κ σ → Prop
  | start (held : List (Relation κ)) (w : World κ σ) : Assembly held w held w
  /-- A new relation takes over the handles on its parts. -/
  | create {held held' : List (Relation κ)} {w u : World κ σ} (make : Nat → Relation κ)
      (rest : List (Relation κ)) (before : Assembly held w held' u)
      (number : (make u.nodes.size).node = u.nodes.size)
      (parts : held'.Perm ((make u.nodes.size).parts ++ rest)) :
    Assembly held w (make u.nodes.size :: rest) ((create make).final u)
  | all {held held' rs rest : List (Relation κ)} {r : Relation κ} {w u v : World κ σ}
      (before : Assembly held w held' u) (parts : held'.Perm (rs ++ rest))
      (ran : Relation.all rs u = .ok r v) : Assembly held w (r :: rest) v
  | any {held held' rs rest : List (Relation κ)} {r : Relation κ} {w u v : World κ σ}
      (before : Assembly held w held' u) (parts : held'.Perm (rs ++ rest))
      (ran : Relation.any rs u = .ok r v) : Assembly held w (r :: rest) v
  | clone {held held' : List (Relation κ)} {w u : World κ σ} (r : Relation κ)
      (before : Assembly held w held' u) (reached : Reaches held' r) :
    Assembly held w (r :: held') (r.retain.final u)

/-- The books are in order, what a handle led to before it does now, and the same nodes are busy. -/
structure Grown (held held' : List (Relation κ)) (w w' : World κ σ) : Prop where
  books : ∃ made, Audited made held' w'
  remains : ∀ s, Reaches held s → Reaches held' s
  busy : SameBusy w w'

theorem Reaches.perm (same : held.Perm held') (reached : Reaches held s) : Reaches held' s := by
  obtain ⟨r, hr, sub⟩ := reached
  exact ⟨r, same.mem_iff.mp hr, sub⟩

namespace Grown

variable {rs rest : List (Relation κ)}

theorem refl (books : ∃ made, Audited made held w) : Grown held held w w :=
  ⟨books, fun _ => id, SameBusy.steady.refl w⟩

theorem trans {held'' : List (Relation κ)} (h : Grown held held' w u) (g : Grown held' held'' u v) :
    Grown held held'' w v :=
  ⟨g.books, fun s reached => g.remains s (h.remains s reached), SameBusy.steady.trans h.busy g.busy⟩

/-- The handles may be listed in another order. -/
theorem perm (h : Grown held held' w w') (same : held'.Perm rest) : Grown held rest w w' :=
  ⟨h.books.imp fun _ books => books.perm same, fun s reached => (h.remains s reached).perm same,
    h.busy⟩

theorem create (r : Relation κ) (rest : List (Relation κ))
    (books : ∃ made, Audited made (r.parts ++ rest) u) (number : r.node = u.nodes.size) :
    Grown (r.parts ++ rest) (r :: rest) u u.added := by
  obtain ⟨made, inventory, registry⟩ := books
  have fresh : (u.added.node r.node).progress = .fresh := by rw [number, World.node_added]
  refine ⟨⟨made ++ [r], inventory.create number, registry.more (fun s hs => ?_) ?_ rfl⟩, ?_,
    fun m => ?_⟩
  · have same := World.node_added_of_lt (inventory.node_lt hs)
    exact World.recorded_of_entries (World.entries_congr (by rw [same]))
      (World.live_congr (by rw [same]))
  · refine World.recorded_of_empty ?_
    cases r with
    | compare n x y c =>
      exact World.entries_of_unfired fun entries fired => nomatch fresh.symm.trans fired
    | _ => rfl
  · rintro s ⟨t, ht, sub⟩
    rcases List.mem_append.mp ht with ht | ht
    · exact ⟨r, List.mem_cons_self .., mem_subs_trans sub (mem_subs_of_mem_parts ht)⟩
    · exact ⟨t, List.mem_cons_of_mem _ ht, sub⟩
  · rw [World.node, World.added, Table.get_push]
    split
    · rename_i new
      rw [World.node, Table.get_of_size_le _ (Nat.le_of_eq new.symm)]
      rfl
    · rfl

/-- Joining relations two by two. -/
theorem joinAll {make : Nat → Relation κ → Relation κ → Relation κ} {unit : Nat → Relation κ}
    (node : ∀ n l r, (make n l r).node = n ∧ (make n l r).parts = [l, r])
    (unitNode : ∀ n, (unit n).node = n ∧ (unit n).parts = [])
    (books : ∃ made, Audited made (rs ++ rest) u)
    (ran : Relation.joinAll (fun l r => Relation.create (make · l r)) (Relation.create unit) rs u =
      .ok r v) : Grown (rs ++ rest) (r :: rest) u v := by
  cases rs with
  | nil =>
    cases ran
    have parts := (unitNode u.nodes.size).2
    have grown := create (unit u.nodes.size) rest (by rwa [parts])
      (unitNode u.nodes.size).1
    rwa [parts] at grown
  | cons first rs =>
    change (rs.foldlM _ first : Act κ σ _) u = _ at ran
    induction rs generalizing first u with
    | nil =>
      cases ran
      exact .refl books
    | cons second rs ih =>
      obtain ⟨joined, u₁, made, ran⟩ := bind_ok ran
      cases made
      have parts := (node u.nodes.size first second).2
      have grown := create (make u.nodes.size first second) (rs ++ rest)
        (by rwa [parts]) (node u.nodes.size first second).1
      rw [parts] at grown
      exact grown.trans (ih _ grown.books ran)

theorem clone (books : ∃ made, Audited made held u) (reached : Reaches held r) :
    Grown held (r :: held) u (u.shared r.node) := by
  obtain ⟨made, inventory, registry⟩ := books
  have alive := (inventory.live_iff_reaches (inventory.mem_of_reaches reached)).mpr reached
  refine ⟨⟨made, inventory.retain reached,
      registry.same (fun s _ => ?_) (fun _ => rfl) fun _ => rfl⟩,
    fun s ⟨t, ht, sub⟩ => ⟨t, List.mem_cons_of_mem _ ht, sub⟩, .modifyNode u _ fun _ => rfl⟩
  exact World.recorded_of_entries (World.entries_congr (World.progress_shared ..))
    (World.live_shared alive _)

end Grown

/-- **Construction** keeps the books in order. -/
theorem Assembly.grown (h : Assembly held w held' w') (books : ∃ made, Audited made held w) :
    Grown held held' w w' := by
  induction h with
  | start => exact .refl books
  | create make rest _ number parts ih =>
    have before := (ih books).perm parts
    exact before.trans (.create _ _ before.books number)
  | all _ parts ran ih =>
    have before := (ih books).perm parts
    exact before.trans (.joinAll (fun _ _ _ => ⟨rfl, rfl⟩) (fun _ => ⟨rfl, rfl⟩) before.books ran)
  | any _ parts ran ih =>
    have before := (ih books).perm parts
    exact before.trans (.joinAll (fun _ _ _ => ⟨rfl, rfl⟩) (fun _ => ⟨rfl, rfl⟩) before.books ran)
  | clone r _ reached ih => exact (ih books).trans (.clone (ih books).books reached)

/-! ## Errands -/

section Errands

variable (holds : σ → List (Relation κ))

/-- What the client's handles led to, they lead to still. -/
def Remains (w w' : World κ σ) : Prop :=
  ∀ s, Reaches (holds w.client) s → Reaches (holds w'.client) s

/-- What a client does without giving a handle up.  Of the relations that it can reach it may solve and
reset any, and the callbacks that are run meanwhile are errands of their own. -/
inductive Errand : World κ σ → World κ σ → Prop
  | idle (w : World κ σ) : Errand w w
  | next {w u v : World κ σ} (first : Errand w u) (second : Errand u v) : Errand w v
  | elsewhere {w v : World κ σ} (calm : Elsewhere w v)
      (same : (holds w.client).Perm (holds v.client)) :
    Errand w v
  /-- The client makes relations and notes which handles it has now. -/
  | assemble {w u v : World κ σ} {held : List (Relation κ)}
      (assembly : Assembly (holds w.client) w held u) (calm : Elsewhere u v)
      (same : held.Perm (holds v.client)) : Errand w v
  | offer {w : World κ σ} (call : Caller κ σ) (x : Var) (a : Value)
      (callbacks : ∀ k args v, Remains holds w v → Errand v ((call k args).final v)) :
    Errand w ((x.bind call a).final w)
  | solve {w : World κ σ} (call : Caller κ σ) (fuel : Nat) {r : Relation κ}
      (reached : Reaches (holds w.client) r)
      (callbacks : ∀ k args v, Remains holds w v → Errand v ((call k args).final v)) :
    Errand w ((r.solve call fuel).final w)
  | reset {w : World κ σ} {r : Relation κ} (reached : Reaches (holds w.client) r) :
    Errand w ((r.reset : Act κ σ Unit).final w)

/-- The books are in order, and all that the handles led to in the world `b` is in reach. -/
structure Sound (b w : World κ σ) : Prop where
  books : ∃ made, Audited made (holds w.client) w
  remains : Remains holds b w

/-- A step of a call that started in the world `b`. -/
def Sound.Step (b u v : World κ σ) : Prop :=
  Sound holds b u → Grown (holds u.client) (holds v.client) u v

variable {holds} {b : World κ σ}

namespace Sound

theorem grown (h : Sound holds b u) (grown : Grown (holds u.client) (holds v.client) u v) :
    Sound holds b v :=
  ⟨grown.books, fun s reached => grown.remains s (h.remains s reached)⟩

/-- What is in order with the same handles is a step. -/
theorem same (h : Sound holds b u) (client : v.client = u.client) (busy : SameBusy u v)
    (books : ∀ made, Audited made (holds u.client) u → Audited made (holds u.client) v) :
    Grown (holds u.client) (holds v.client) u v := by
  rw [client]
  exact ⟨h.books.imp books, fun _ => id, busy⟩

theorem Step.steady : Steady (Sound.Step holds b) where
  refl _ h := .refl h.books
  trans first second h := (first h).trans (second (h.grown (first h)))

theorem record (w : World κ σ) (event : World κ σ → Event) :
    Sound.Step holds b w (w.record event) :=
  fun h => h.same (World.client_record ..) (.record w event) fun _ books => books.record event

theorem put (x : Var) (w : World κ σ) (a : Value) :
    Sound.Step holds b w (w.modifyCell x (·.put a)) :=
  fun h => h.same rfl (fun _ => rfl) fun _ books => books.modifyCell x (Cell.keepsWatches_put a)

theorem clear (x : Var) (w : World κ σ) : Sound.Step holds b w (w.modifyCell x Cell.clear) :=
  fun h => h.same rfl (fun _ => rfl) fun _ books => books.modifyCell x Cell.keepsWatches_clear

section Calls

variable (reached : Reaches (holds b.client) s)
include reached

theorem mem_made (h : Sound holds b w) (books : Audited made (holds w.client) w) : s ∈ made :=
  books.inventory.mem_of_reaches (h.remains s reached)

theorem note (plain : s.compared = []) (w : World κ σ) (p : Progress) :
    Sound.Step holds b w (w.noted s.node p) :=
  fun h => h.same rfl (.modifyNode w _ fun _ => rfl) fun _ books =>
    books.noted (h.mem_made reached books) plain p

/-- A mark or a counter of the node has changed. -/
theorem modifyNode (h : Sound holds b w) {f : Node → Node}
    (same : ∀ node : Node, (f node).owners = node.owners ∧ (f node).progress = node.progress) :
    Sound holds b (w.modifyNode s.node f) :=
  ⟨h.books.imp fun _ books => books.modifyNode (h.mem_made reached books) same, h.remains⟩

omit reached in
theorem recorded (h : Sound holds b w) (event : World κ σ → Event) :
    Sound holds b (w.record event) :=
  h.grown (record w event h)

theorem concluded (h : Sound holds b w) (answer : Bool) : Sound holds b (w.concluded s answer) := by
  unfold World.concluded
  refine recorded (modifyNode reached (modifyNode reached h ?_) ?_) _ <;> exact fun _ => ⟨rfl, rfl⟩

/-- What is in order after a call that had marked its node. -/
theorem called (h : Sound holds b u) (inner : Sound.Step holds b (u.setBusy s.node true) v)
    (busy : SameBusy (u.setBusy s.node true) v → SameBusy u w) (client : w.client = v.client)
    (sound : Sound holds b v → Sound holds b w) : Grown (holds u.client) (holds w.client) u w := by
  have marked : Sound holds b (u.setBusy s.node true) := h.modifyNode reached fun _ => ⟨rfl, rfl⟩
  have step := inner marked
  refine ⟨(sound (marked.grown step)).books, ?_, busy step.busy⟩
  rw [client]
  exact step.remains

theorem answering {search : Act κ σ Bool} (inner : Keeps (Sound.Step holds b) search) :
    Keeps (Sound.Step holds b) (answering s search) := by
  refine keeps_answering inner Step.steady.refl fun u v idle inner =>
    ⟨fun h => ?_, fun answer h => ?_⟩
  · exact h.called reached inner (.of_held idle) rfl fun sound =>
      sound.modifyNode reached fun _ => ⟨rfl, rfl⟩
  · exact h.called reached inner (fun busy => .concluded idle busy answer)
      (World.client_record ..) fun sound => sound.concluded reached answer

theorem rewound (h : Sound holds b (w.noted s.node .fresh)) : Sound holds b (w.rewound s) := by
  unfold World.rewound
  refine recorded (Sound.modifyNode reached (Sound.modifyNode reached h ?_) ?_) _ <;>
    exact fun _ => ⟨rfl, rfl⟩

theorem rewinding (plain : s.compared = []) {undo : Act κ σ Unit}
    (inner : Keeps (Sound.Step holds b) undo) : Keeps (Sound.Step holds b) (rewinding s undo) := by
  refine keeps_rewinding inner Step.steady.refl fun u v idle inner => ⟨fun h => ?_, fun h => ?_⟩
  · exact h.called reached inner (.of_held idle) rfl fun sound =>
      sound.modifyNode reached fun _ => ⟨rfl, rfl⟩
  · refine h.called reached inner (.rewound idle) (World.client_record ..) fun sound => ?_
    exact rewound reached (sound.grown (note reached plain v .fresh sound))

end Calls

section Comparisons

variable (reached : Reaches (holds b.client) (.compare n x y c))
include reached

/-- A comparison has its turn. -/
theorem turn (callback : ∀ k args, Keeps (Sound.Step holds b) (call k args)) :
    Keeps (Sound.Step holds b) (advanceCompare call n x y c) := by
  intro u h
  have inReach := h.remains _ reached
  have alive {made : List (Relation κ)} (books : Audited made (holds u.client) u) :
      u.live n = true :=
    (books.inventory.live_iff_reaches (h.mem_made reached books)).mpr inReach
  by_cases fired : ∃ entries, (u.node n).progress = .fired entries
  · obtain ⟨entries, fired⟩ := fired
    rw [final_of_ok (advanceCompare_of_fired fired)]
    rw [← World.entries_of_fired (x := x) (y := y) (c := c) fired]
    refine h.same (World.client_dropAll ..) ?_ fun _ books =>
      books.dropped (h.mem_made reached books) (alive books) fun _ e => (Progress.fired.inj e).symm
    exact SameBusy.steady.trans (.of_node fun _ => World.node_dropAll ..) (.noted _ _ _)
  · have unfired : ∀ entries, (u.node n).progress ≠ .fired entries := fun entries fired' =>
      fired ⟨entries, fired'⟩
    have watched : Sound.Step holds b u (u.watching n x y c) := fun h =>
      h.same (World.client_watching ..) (.watching u n x y c) fun _ books =>
        books.watching (h.mem_made reached books) (alive books) unfired
    have compared (a d : Value) :
        Sound.Step holds b u ((c.holds call a d).final (u.noted n (.fired []))) := by
      refine Step.steady.trans (fun h => ?_) (keeps_comparison Step.steady callback c a d _)
      exact h.same rfl (.noted u n _) fun _ books =>
        books.blank (h.mem_made reached books) unfired
    unfold Act.final at compared ⊢
    rw [advanceCompare_of_unfired unfired]
    cases left : u.value x with
    | none => exact watched h
    | some a =>
      cases right : u.value y with
      | none => exact watched h
      | some d => exact compared a d h

/-- A comparison takes its turn back. -/
theorem back : Keeps (Sound.Step holds b) ((Relation.compare n x y c).reset : Act κ σ Unit) := by
  intro u h
  cases idle : (u.node n).busy with
  | true =>
    have ran : (Relation.compare n x y c).reset u = .error .busy u := rewinding_of_busy idle
    rw [final_of_error ran]
    exact .refl h.books
  | false =>
    rw [final_of_ok (reset_compare idle)]
    have same : (u.setBusy n true).entries (.compare n x y c) = u.entries (.compare n x y c) :=
      World.entries_congr (World.progress_setBusy ..)
    generalize hv : (u.setBusy n true).dropAll (u.entries (.compare n x y c)) = v
    have node (m : Nat) : v.node m = (u.setBusy n true).node m := by rw [← hv, World.node_dropAll]
    have client : v.client = u.client := by
      rw [← hv]
      exact World.client_dropAll ..
    have taken : Sound.Step holds b (u.setBusy n true) (v.noted n .fresh) := by
      refine fun marked => marked.same client ?_ fun made books => ?_
      · exact SameBusy.steady.trans (.of_node node) (.noted _ _ _)
      · have hs := marked.mem_made reached books
        have alive := (books.inventory.live_iff_reaches hs).mpr (marked.remains _ reached)
        rw [← hv, ← same]
        exact books.dropped hs alive nofun
    exact h.called reached taken (fun _ => .rewound idle (.of_node node)) (World.client_record ..)
      (rewound reached)

end Comparisons

theorem works (reached : Reaches (holds b.client) s)
    (callback : ∀ k args, Keeps (Sound.Step holds b) (call k args)) :
    Works call s (Sound.Step holds b) where
  steady := Step.steady
  callback := callback
  record := record
  put x _ := put x
  clear x _ := clear x
  note := note reached
  turn n x y c e := by subst e; exact turn reached callback
  back some := by
    cases s with
    | compare n x y c => exact back reached
    | _ => exact absurd rfl some

theorem conducts (reached : Reaches (holds b.client) r)
    (callback : ∀ k args, Keeps (Sound.Step holds b) (call k args)) :
    Conducts call fuel r (Sound.Step holds b) := by
  have below {s : Relation κ} (hs : s ∈ r.subs) : Reaches (holds b.client) s := by
    obtain ⟨t, ht, sub⟩ := reached
    exact ⟨t, ht, mem_subs_trans hs sub⟩
  have plain {s : Relation κ} (combined : ¬ s.IsLeaf) : s.compared = [] := by
    cases s <;> first | rfl | exact absurd rfl combined
  exact {
    steady := Step.steady
    solveLeaf := fun s hs leaf => (works (below hs) callback).solve leaf
      fun _ => answering (below hs)
    resetLeaf := fun s hs leaf => (works (below hs) callback).reset leaf
      fun plain _ => rewinding (below hs) plain
    setProgress := fun s hs combined p w => note (below hs) (plain combined) w p
    answering := fun s hs _ _ => answering (below hs)
    rewinding := fun s hs combined _ => rewinding (below hs) (plain combined) }

end Sound

/-- **An errand** keeps the books in order, gives no handle up, and leaves no node busy that was not. -/
theorem Errand.grown (h : Errand holds w w') (books : ∃ made, Audited made (holds w.client) w) :
    Grown (holds w.client) (holds w'.client) w w' := by
  induction h with
  | idle => exact .refl books
  | next _ _ first second =>
    have before := first books
    exact before.trans (second before.books)
  | elsewhere calm same =>
    exact ⟨books.imp fun _ books => (books.elsewhere calm).perm same, fun _ => .perm same,
      calm.busy⟩
  | assemble assembly calm same =>
    have built := assembly.grown books
    refine ⟨built.books.imp fun _ books => (books.elsewhere calm).perm same,
      fun s reached => (built.remains s reached).perm same,
      SameBusy.steady.trans built.busy calm.busy⟩
  | offer call x a _ ih =>
    have callback (k args) : Keeps (Sound.Step holds _) (call k args) :=
      fun v sound => ih k args v sound.remains sound.books
    exact keeps_bind Sound.Step.steady callback (Sound.put x) Sound.record a _ ⟨books, fun _ => id⟩
  | solve call fuel reached _ ih =>
    have callback (k args) : Keeps (Sound.Step holds _) (call k args) :=
      fun v sound => ih k args v sound.remains sound.books
    exact (Sound.conducts reached callback).solve (mem_subs_self _) _ ⟨books, fun _ => id⟩
  | @reset w r reached =>
    -- A reset runs no callback, so that any caller will do.
    have conducts : Conducts (fun _ _ => pure default : Caller κ σ) 0 r (Sound.Step holds w) :=
      Sound.conducts reached fun _ _ => Sound.Step.steady.refl
    exact conducts.reset (mem_subs_self _) _ ⟨books, fun _ => id⟩

variable (holds) in
/-- What a client does from the start, when there is no relation.  Between its errands, when no call is
under way, it may give handles up. -/
inductive History : World κ σ → Prop
  | start {w : World κ σ} (nodes : w.nodes.size = 0) (watches : ∀ x, (w.cell x).watches = [])
      (none : holds w.client = []) : History w
  | errand {w w' : World κ σ} (before : History w) (errand : Errand holds w w') : History w'
  | release {w w' : World κ σ} {r : Relation κ} {rest : List (Relation κ)} (before : History w)
      (own : (holds w.client).Perm (r :: rest))
      (calm : Elsewhere ((r.release : Act κ σ Unit).final w) w')
      (same : rest.Perm (holds w'.client)) : History w'

end Errands

/-- **Releasing a handle** keeps the books in order. -/
theorem Audited.release (h : Audited made (r :: held) w) :
    ∃ w', r.release w = .ok ⟨⟩ w' ∧ Audited made held w' ∧ Shed made w w' := by
  obtain ⟨w', ran, inventory, shed⟩ := h.inventory.release
  refine ⟨w', ran, ⟨inventory, ?_⟩, shed⟩
  refine h.registry.less (fun s => w.live s.node && !w'.live s.node) (fun s _ => ?_) fun x => ?_
  · cases live : w'.live s.node with
    | true => simpa using shed.recorded live
    | false =>
      rw [World.recorded_of_gone live]
      cases before : w.live s.node with
      | true => rfl
      | false => exact (World.recorded_of_gone before).symm
  · rw [shed.cells x]
    exact ⟨rfl, rfl⟩

variable {holds : σ → List (Relation κ)}

/-- The books are in order at every point of a history, and no node is busy. -/
theorem History.books (h : History holds w) :
    (∃ made, Audited made (holds w.client) w) ∧ ∀ n, (w.node n).busy = false := by
  induction h with
  | @start w nodes watches none =>
    have unborn (n : Nat) : w.node n = default := Table.get_of_size_le _ (nodes ▸ Nat.zero_le n)
    have bare {x : Var} {watch : Watch κ} (hw : watch ∈ (w.cell x).watches) : False :=
      List.not_mem_nil (watches x ▸ hw)
    refine ⟨⟨[],
      ⟨by rw [nodes]; rfl, nofun, fun r hr => none ▸ hr, fun n => by rw [unborn, none]; rfl⟩,
      ⟨nofun, nofun, nofun, fun _ _ hw => (bare hw).elim, nofun, fun x => watches x ▸ .nil,
        fun _ _ hw => (bare hw).elim⟩⟩, fun n => by rw [unborn]; rfl⟩
  | errand _ errand ih =>
    have grown := errand.grown ih.1
    exact ⟨grown.books, fun n => (grown.busy n).trans (ih.2 n)⟩
  | release _ own calm same ih =>
    obtain ⟨⟨made, books⟩, idle⟩ := ih
    obtain ⟨u, ran, after, shed⟩ := (books.perm own).release
    rw [final_of_ok ran] at calm
    exact ⟨⟨made, (after.elsewhere calm).perm same⟩,
      fun n => (calm.busy n).trans ((shed.busy n).trans (idle n))⟩

/-- Functions of their arguments run no errands at all. -/
theorem Errand.function {holds : σ → List (Relation Function)} (f : Function) (args : List Value)
    (w : World Function σ) : Errand holds w ((Function.call f args).final w) := by
  unfold Act.final
  rw [Function.call_eq]
  cases f args <;> exact .idle w

/-! ## What there is at every point of a history -/

namespace Relation

/-- **Handles decide what lives.**  At every point of a history, each node has one owner for every handle on
it and for every slot of a live node that has it as a part, and is live if a handle leads to it.  To
release a handle is to lose just what no other handle leads to: the other nodes are as they were,
except that they may have fewer owners, and the variables lose the watches of the lost comparisons. -/
theorem handles_decide_what_lives (h : History holds w) :
    ∃ made, Inventory made (holds w.client) w ∧
      (∀ s ∈ made, w.live s.node = true ↔ Reaches (holds w.client) s) ∧
      ∀ r rest, (holds w.client).Perm (r :: rest) → ∃ w', r.release w = .ok ⟨⟩ w' ∧
        Inventory made rest w' ∧
        (∀ s ∈ made, w.live s.node = true ∧ w'.live s.node = false ↔
          Reaches (holds w.client) s ∧ ¬ Reaches rest s) ∧
        (∀ n, w'.live n = true → w'.node n = { w.node n with owners := (w'.node n).owners }) ∧
        Stripped ((w.gone w' made).flatMap w.recorded) w w' := by
  obtain ⟨⟨made, books⟩, -⟩ := h.books
  refine ⟨made, books.inventory, fun s hs => books.inventory.live_iff_reaches hs,
    fun r rest own => ?_⟩
  obtain ⟨w', ran, after, shed⟩ := (books.perm own).release
  refine ⟨w', ran, after.inventory, fun s hs => ?_, shed.node, shed.cells⟩
  rw [books.inventory.live_iff_reaches hs, ← after.inventory.live_iff_reaches hs, Bool.not_eq_true]

/-- A client that keeps a list of its handles has none yet. -/
def handless : World Function (List (Relation Function)) := { client := [] }

theorem history_handless : History id handless :=
  .start rfl (fun _ => by rw [World.cell, handless, Table.get_empty]; rfl) rfl

/-- A conjunction with the same node on both sides. -/
def twin : Relation Function :=
  .and 1 (.domain 0 { id := 0, name := "X" } []) (.domain 0 { id := 0, name := "X" } [])

/-- The client has made a domain, cloned its handle, and given both handles to a conjunction. -/
def twinned : World Function (List (Relation Function)) :=
  { (do
      let d ← create (.domain · { id := 0, name := "X" } [])
      d.retain
      let _ ← create (.and · d d) : Act Function _ Unit).final handless with client := [twin] }

theorem history_twinned : History id twinned := by
  have domain := Assembly.create (.domain · { id := 0, name := "X" } []) [] (.start [] handless) rfl
    (.refl _)
  have cloned := domain.clone _ ⟨_, List.mem_singleton_self _, mem_subs_self _⟩
  have joined := Assembly.create (fun n => .and n _ _) [] cloned rfl (.refl _)
  refine history_handless.errand (.assemble joined ?_ (.refl _))
  exact ⟨rfl, fun _ => rfl, fun _ => rfl, fun _ => rfl, fun _ => rfl, fun _ => rfl⟩

/-- Each side is an owner of the node they share, and it goes with the conjunction. -/
theorem sides_are_owners : (twinned.node 0).owners = 2 ∧ ∃ made, twinned.slots made 0 = 2 ∧
    ∃ w', twin.release twinned = .ok ⟨⟩ w' ∧ w'.live 0 = false ∧ w'.live 1 = false := by
  obtain ⟨made, inventory, -, release⟩ := handles_decide_what_lives history_twinned
  obtain ⟨w', ran, -, gone, -⟩ := release twin [] (.refl _)
  have root : twin ∈ made := inventory.known _ (List.mem_singleton_self _)
  have lost {s : Relation Function} (hs : s ∈ twin.subs) : w'.live s.node = false :=
    ((gone s (inventory.subs root s hs)).mpr ⟨⟨twin, List.mem_singleton_self _, hs⟩, nofun⟩).2
  have count : 2 = 0 + twinned.slots made 0 := inventory.owners 0
  refine ⟨rfl, made, ?_, w', ran, lost left_sub_and, lost (mem_subs_self _)⟩
  omega

/-- **The watches are those that live comparisons have noted.**  At every point of a history, each watch is
noted once, by one comparison, which left it; a comparison that is not fired has noted none, and no
comparison more than two.  A reset, an exhausted solve and the loss of a comparison take its own
watches away and no others. -/
theorem watches_are_as_noted (h : History holds w) :
    ∃ made, Inventory made (holds w.client) w ∧
      ((made.flatMap w.recorded).map watchKey).Nodup ∧
      (∀ x id, listed (made.flatMap w.recorded) x id = true ↔
        ∃ watch ∈ (w.cell x).watches, watch.id = id) ∧
      (∀ s ∈ made, ∀ x id, listed (w.recorded s) x id = true →
        ∃ watch ∈ (w.cell x).watches, watch.id = id ∧ s.Leaves x watch) ∧
      (∀ x, (w.cell x).watches.Pairwise (·.id < ·.id)) ∧
      (∀ s ∈ made, (w.recorded s).length ≤ 2 ∧
        ((∀ entries, (w.node s.node).progress ≠ .fired entries) → w.recorded s = [])) ∧
      (∀ n x y c, .compare n x y c ∈ made → w.live n = true →
        (∃ w', (Relation.compare n x y c).reset w = .ok ⟨⟩ w' ∧
          Stripped (w.recorded (.compare n x y c)) w w') ∧
        ∀ call fuel entries, (w.node n).progress = .fired entries →
          ∃ w', (Relation.compare n x y c).solve call fuel w = .ok false w' ∧
            Stripped (w.recorded (.compare n x y c)) w w') ∧
      ∀ r rest, (holds w.client).Perm (r :: rest) → ∃ w', r.release w = .ok ⟨⟩ w' ∧
        Stripped ((w.gone w' made).flatMap w.recorded) w w' := by
  obtain ⟨⟨made, books⟩, idle⟩ := h.books
  obtain ⟨inventory, registry⟩ := books
  refine ⟨made, inventory, registry.nodup (.of_map _ inventory.distinct), fun x id => ?_, registry.left,
    registry.ordered, fun s hs => ⟨registry.few s hs, fun unfired => ?_⟩,
    fun n x y c hs alive => ⟨reset_compare_strips (idle n) alive, fun call fuel entries fired =>
      solve_compare_strips (idle n) alive fired⟩, fun r rest own => ?_⟩
  · rw [listed_flatMap]
    constructor
    · rintro ⟨s, hs, noted⟩
      obtain ⟨watch, hw, same, -⟩ := registry.left s hs x id noted
      exact ⟨watch, hw, same⟩
    · rintro ⟨watch, hw, rfl⟩
      exact registry.noted x watch hw
  · refine World.recorded_of_empty ?_
    cases s with
    | compare n x y c => exact World.entries_of_unfired unfired
    | _ => rfl
  · obtain ⟨w', ran, -, shed⟩ := (Audited.mk inventory registry).perm own |>.release
    exact ⟨w', ran, shed.cells⟩

/-- A comparison of a variable with itself. -/
def selfEqual : Relation Function :=
  .compare 0 { id := 0, name := "X" } { id := 0, name := "X" } .equality

/-- The client has made the comparison and solved it. -/
def solvedSelfEqual : World Function (List (Relation Function)) :=
  (selfEqual.solve Function.call 0).final { handless.added with
    client := [selfEqual] }

theorem history_solvedSelfEqual : History id solvedSelfEqual := by
  have made := Assembly.create
    (fun n => .compare n { id := 0, name := "X" } { id := 0, name := "X" } .equality) []
    (.start [] handless) rfl (.refl _)
  have noted : History id { handless.added with client := [selfEqual] } := by
    refine history_handless.errand (.assemble made ?_ (.refl _))
    exact ⟨rfl, fun _ => rfl, fun _ => rfl, fun _ => rfl, fun _ => rfl, fun _ => rfl⟩
  exact noted.errand (.solve Function.call 0 ⟨_, List.mem_singleton_self _, mem_subs_self _⟩
    fun f args w _ => .function f args w)

/-- It has left two watches at the variable, and takes both away. -/
theorem self_comparison_takes_both_watches_away :
    ∃ w', selfEqual.reset solvedSelfEqual = .ok ⟨⟩ w' ∧
      (solvedSelfEqual.cell { id := 0, name := "X" }).watches.length = 2 ∧
      (w'.cell { id := 0, name := "X" }).watches = [] := by
  obtain ⟨made, inventory, -, -, -, -, -, comparisons, -⟩ :=
    watches_are_as_noted history_solvedSelfEqual
  have hs : selfEqual ∈ made := inventory.known _ (List.mem_cons_self : selfEqual ∈ [selfEqual])
  obtain ⟨⟨w', ran, stripped⟩, -⟩ := comparisons _ _ _ _ hs rfl
  refine ⟨w', ran, rfl, ?_⟩
  rw [stripped]
  rfl

end Relation

end RelationSearch
