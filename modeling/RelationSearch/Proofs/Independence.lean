import RelationSearch.Proofs.AsBuilt
import RelationSearch.Proofs.Chains
import RelationSearch.Proofs.Histories

/-! # Graphs that leave each other alone

A call on a relation rebinds only what its domains and conversions bind, touches watches only at the
operands of its comparisons, and changes only its own nodes (`Confined`).  What it answers depends on
its own variables and nodes, and on the variables that decide whether a watch lets a value
through (`Beside`).

So two graphs without a common node or variable can be driven in turns, and each looks as if the other were
not there, provided that no watch ties what one of them binds to what the other binds
(`Relation.independent_in_turns`).  Neither of them can have left such a watch, but a comparison outside
both that is still pending can have, and then they do interfere
(`Relation.pending_comparison_ties`).
-/
namespace RelationSearch

open Act RelationSearch.Relation

variable {κ σ : Type} {root me other s : Relation κ} {b w w' v u : World κ σ} {n : Nat} {x : Var}
variable {fuel : Nat}

/-! ## What a call touches -/

namespace Relation

/-- The numbers of the variables that each node of a graph lists. -/
def numbers (root : Relation κ) (list : Relation κ → List Var) : List Nat :=
  root.subs.flatMap fun s => (list s).map (·.id)

theorem mem_numbers {list : Relation κ → List Var} (hs : s ∈ root.subs) (hx : x ∈ list s) :
    x.id ∈ root.numbers list :=
  List.mem_flatMap.mpr ⟨s, hs, List.mem_map_of_mem hx⟩

theorem numbers_mono {list list' : Relation κ → List Var} (le : ∀ s, list s ⊆ list' s) :
    root.numbers list ⊆ root.numbers list' := by
  intro i hi
  obtain ⟨s, hs, hi⟩ := List.mem_flatMap.mp hi
  exact List.mem_flatMap.mpr ⟨s, hs, List.map_subset _ (le s) hi⟩

theorem targets_subset (s : Relation κ) : s.targets ⊆ s.operands := by
  cases s <;> simp [targets, operands]

theorem compared_subset (s : Relation κ) : s.compared ⊆ s.operands := by
  cases s <;> simp [compared, operands]

end Relation

/-- What a call on the root may have done to the world. -/
structure Confined (root : Relation κ) (w w' : World κ σ) : Prop where
  binding : ∀ x : Var, x.id ∉ root.numbers targets →
    (w'.cell x).value = (w.cell x).value ∧ (w'.cell x).generation = (w.cell x).generation
  watches : ∀ x : Var, x.id ∉ root.numbers compared →
    (w'.cell x).watches = (w.cell x).watches ∧ (w'.cell x).nextWatch = (w.cell x).nextWatch
  node : ∀ n, n ∉ root.ids → w'.node n = w.node n

namespace Confined

theorem steady (root : Relation κ) : Steady (Confined root : World κ σ → World κ σ → Prop) where
  refl _ := ⟨fun _ _ => ⟨rfl, rfl⟩, fun _ _ => ⟨rfl, rfl⟩, fun _ _ => rfl⟩
  trans h g := {
    binding := fun x hx => ⟨(g.binding x hx).1.trans (h.binding x hx).1,
      (g.binding x hx).2.trans (h.binding x hx).2⟩
    watches := fun x hx => ⟨(g.watches x hx).1.trans (h.watches x hx).1,
      (g.watches x hx).2.trans (h.watches x hx).2⟩
    node := fun n hn => (g.node n hn).trans (h.node n hn) }

theorem of_same (cell : ∀ x, w'.cell x = w.cell x) (node : ∀ n, w'.node n = w.node n) :
    Confined root w w' :=
  ⟨fun x _ => by rw [cell]; exact ⟨rfl, rfl⟩, fun x _ => by rw [cell]; exact ⟨rfl, rfl⟩,
    fun n _ => node n⟩

theorem modifyNode (hn : n ∈ root.ids) (w : World κ σ) (f : Node → Node) :
    Confined root w (w.modifyNode n f) :=
  ⟨fun _ _ => ⟨rfl, rfl⟩, fun _ _ => ⟨rfl, rfl⟩,
    fun _ hm => World.node_modifyNode_of_ne w f fun same => hm (same ▸ hn)⟩

theorem rebind (hx : x.id ∈ root.numbers targets) (w : World κ σ) {f : Cell κ → Cell κ}
    (keeps : Cell.KeepsWatches f) : Confined root w (w.modifyCell x f) := by
  refine ⟨fun y hy => ?_, fun y _ => keeps.modifyCell w x y, fun _ _ => rfl⟩
  rw [World.cell_modifyCell, if_neg fun same : x.id = y.id => hy (same ▸ hx)]
  exact ⟨rfl, rfl⟩

theorem rewatch (hx : x.id ∈ root.numbers compared) (w : World κ σ) {f : Cell κ → Cell κ}
    (keeps : Cell.KeepsBinding f) : Confined root w (w.modifyCell x f) := by
  refine ⟨fun y _ => ?_, fun y hy => ?_, fun _ _ => rfl⟩
  · rw [World.cell_modifyCell]
    split
    · exact keeps _
    · exact ⟨rfl, rfl⟩
  · rw [World.cell_modifyCell, if_neg fun same : x.id = y.id => hy (same ▸ hx)]
    exact ⟨rfl, rfl⟩

end Confined

/-! ## What a call depends on -/

/-- The comparisons of the graph have noted watches at their own operands only. -/
def Tethered (root : Relation κ) (w : World κ σ) : Prop :=
  ∀ n x y c, .compare n x y c ∈ root.subs → ∀ entries, (w.node n).progress = .fired entries →
    ∀ entry ∈ entries, entry.1.id ∈ root.numbers compared

/-- What a search of the root is confined to, where it may look at a watch's other operand unless that is
`foreign`. -/
def Relation.territory (root : Relation κ) (foreign : Nat → Prop) : Territory where
  binds x := x.id ∈ root.numbers targets
  guards x := x.id ∈ root.numbers compared
  reads x := x.id ∈ root.numbers operands
  asks x := ¬ foreign x.id
  nodes n := n ∈ root.ids
  notes n := ∃ x y c, .compare n x y c ∈ root.subs

theorem Relation.territory_holds {foreign : Nat → Prop}
    (own : ∀ i ∈ root.numbers operands, ¬ foreign i) :
    ∀ s ∈ root.subs, (root.territory foreign).Holds s := by
  intro s hs
  refine ⟨List.mem_map_of_mem hs, fun x => mem_numbers hs, fun x => mem_numbers hs,
    fun x => mem_numbers hs, fun x hx => own _ (mem_numbers hs (compared_subset s hx)),
    fun some => ?_⟩
  cases s with
  | compare n x y c => exact ⟨x, y, c, hs⟩
  | _ => exact absurd rfl some

/-- Since the world `b` a search of the root has led to `w`, and to a world `v` that differs from `w` only in
what that search does not depend on. -/
structure Beside (root : Relation κ) (foreign : Nat → Prop) (b w v : World κ σ) : Prop where
  confined : Confined root b w
  cell : ∀ x : Var, x.id ∈ root.numbers operands → v.cell x = w.cell x
  value : ∀ x : Var, ¬ foreign x.id → v.value x = w.value x
  asked : ∀ x : Var, x.id ∈ root.numbers targets →
    ∀ watch ∈ (w.cell x).watches, ¬ foreign watch.other.id
  node : ∀ n ∈ root.ids, v.node n = w.node n
  noted : Tethered root w

namespace Beside

variable {foreign : Nat → Prop}

theorem start (asked : ∀ x : Var, x.id ∈ root.numbers targets →
      ∀ watch ∈ (w.cell x).watches, ¬ foreign watch.other.id)
    (noted : Tethered root w) : Beside root foreign w w w :=
  ⟨(Confined.steady root).refl w, fun _ _ => rfl, fun _ _ => rfl, asked, fun _ _ => rfl, noted⟩

theorem modifyCell (h : Beside root foreign b w v) (hx : x.id ∈ root.numbers operands)
    {f : Cell κ → Cell κ} (confined : Confined root w (w.modifyCell x f))
    (asked : ∀ cell, ∀ watch ∈ (f cell).watches, watch ∈ cell.watches ∨ ¬ foreign watch.other.id) :
    Beside root foreign b (w.modifyCell x f) (v.modifyCell x f) where
  confined := (Confined.steady root).trans h.confined confined
  cell y hy := by rw [World.cell_modifyCell, World.cell_modifyCell, h.cell y hy]
  value y hy := by
    rw [World.value, World.value, World.cell_modifyCell, World.cell_modifyCell]
    split
    · rename_i same
      rw [h.cell y (same ▸ hx)]
    · exact h.value y hy
  asked y hy watch hw := by
    rw [World.cell_modifyCell] at hw
    split at hw
    · exact (asked _ watch hw).elim (h.asked y hy watch) id
    · exact h.asked y hy watch hw
  node := h.node
  noted := h.noted

theorem modifyNode (h : Beside root foreign b w v) (hn : n ∈ root.ids) {f : Node → Node}
    (noted : ∀ node entries, (f node).progress = .fired entries →
      node.progress = .fired entries ∨ ∀ entry ∈ entries, entry.1.id ∈ root.numbers compared) :
    Beside root foreign b (w.modifyNode n f) (v.modifyNode n f) where
  confined := (Confined.steady root).trans h.confined (.modifyNode hn w f)
  cell := h.cell
  value := h.value
  asked := h.asked
  node m hm := by rw [World.node_modifyNode, World.node_modifyNode, h.node m hm]
  noted m x y c hm entries fired := by
    rw [World.node_modifyNode] at fired
    split at fired
    · exact (noted _ _ fired).elim (h.noted m x y c hm entries) id
    · exact h.noted m x y c hm entries fired

/-- A search of the root cannot tell the worlds apart. -/
theorem shares (root : Relation κ) (foreign : Nat → Prop) (b : World κ σ) :
    Shares (fun _ => True) (root.territory foreign) fun _ => Beside root foreign b where
  cell h := h.cell
  value h := h.value
  asked h := h.asked
  node h := h.node
  noted h n notes := by
    obtain ⟨x, y, c, hn⟩ := notes
    exact h.noted n x y c hn
  rebind h x hx f keeps := by
    refine h.modifyCell (numbers_mono targets_subset hx) (.rebind hx _ keeps) fun cell watch hw => ?_
    exact .inl ((keeps cell).1 ▸ hw)
  rewatch h x hx f keeps asked :=
    h.modifyCell (numbers_mono compared_subset hx) (.rewatch hx _ keeps) asked
  modifyNode h n hn f _ noted := h.modifyNode hn noted
  record h event := by
    have same (w : World κ σ) : Confined root w (w.record event) :=
      .of_same (World.cell_record w event) (World.node_record w event)
    exact {
      confined := (Confined.steady root).trans h.confined (same _)
      cell := fun x hx => by rw [World.cell_record, World.cell_record, h.cell x hx]
      value := fun x hx => by rw [World.value_record, World.value_record, h.value x hx]
      asked := fun x hx watch hw => h.asked x hx watch (World.cell_record _ event x ▸ hw)
      node := fun n hn => by rw [World.node_record, World.node_record, h.node n hn]
      noted := fun n x y c hn entries fired =>
        h.noted n x y c hn entries (World.node_record _ event n ▸ fired) }
  enter h n hn _ := h.modifyNode hn fun _ _ => .inl
  leave _ n hn _ h := h.modifyNode hn fun _ _ => .inl
  unbound _ _ := trivial
  outOfFuel := trivial
  onChain := .inl fun _ => trivial

/-- What comes next is counted from here. -/
theorem rebase (h : Beside root foreign b w v) : Beside root foreign w w v :=
  ⟨(Confined.steady root).refl w, h.cell, h.value, h.asked, h.node, h.noted⟩

end Beside

/-! ## Calls in turns -/

/-- A call that a client makes on a root. -/
inductive Request
  | solve (fuel : Nat)
  | reset

/-- Makes the call.  A reset has nothing to answer. -/
def Request.act (root : Relation Function) : Request → Act Function σ (Option Bool)
  | .solve fuel => do return some (← root.solve Function.call fuel)
  | .reset => do
    root.reset
    return none

/-- What is seen of a root after a call. -/
structure Sight where
  reply : Except Interrupt (Option Bool)
  /-- The values and generations of its variables. -/
  bindings : List (Option Value × Nat)
  /-- The counters of its nodes. -/
  counters : List Counters

/-- What is seen of the root in a world, after the reply. -/
def World.sight (w : World κ σ) (root : Relation κ) (reply : Except Interrupt (Option Bool)) :
    Sight where
  reply
  bindings := (root.subs.flatMap operands).map fun x => ((w.cell x).value, (w.cell x).generation)
  counters := root.ids.map fun n => (w.node n).counters

/-- Makes calls on two roots, in turn, and notes what is seen of the root after each. -/
def serve (roots : Bool → Relation Function) :
    List (Bool × Request) → World Function σ → List (Bool × Sight)
  | [], _ => []
  | (side, request) :: rest, w =>
    let act := request.act (roots side)
    (side, (act.final w).sight (roots side) (act.reply w)) :: serve roots rest (act.final w)

theorem Concur.reply {α : Type} {E : Interrupt → Prop} {R : World κ σ → World κ σ → Prop}
    {act act' : Act κ σ α} (h : Concur E R (act w) (act' v)) : act.reply w = act'.reply v := by
  unfold Act.reply
  generalize act w = result, act' v = result' at h
  cases h <;> rfl

theorem Beside.sight {foreign : Nat → Prop} (h : Beside root foreign b w v)
    (reply : Except Interrupt (Option Bool)) : v.sight root reply = w.sight root reply := by
  unfold World.sight
  congr 1
  · refine List.map_congr_left fun x hx => ?_
    obtain ⟨s, hs, hx⟩ := List.mem_flatMap.mp hx
    rw [h.cell x (mem_numbers hs hx)]
  · exact List.map_congr_left fun n hn => by rw [h.node n hn]

/-- Graphs without a common node or variable. -/
structure Independent (l r : Relation κ) : Prop where
  nodes : ∀ n ∈ l.ids, n ∉ r.ids
  vars : ∀ i ∈ l.numbers operands, i ∉ r.numbers operands

theorem Independent.symm {l r : Relation κ} (h : Independent l r) : Independent r l :=
  ⟨fun n hr hl => h.nodes n hl hr, fun i hr hl => h.vars i hl hr⟩

/-- No watch ties a variable that `l` binds to a variable that `r` binds. -/
def Unlinked (l r : Relation κ) (w : World κ σ) : Prop :=
  ∀ x : Var, x.id ∈ l.numbers targets →
    ∀ watch ∈ (w.cell x).watches, watch.other.id ∉ r.numbers targets

theorem Tethered.of_node (h : Tethered root w) (same : ∀ n ∈ root.ids, w'.node n = w.node n) :
    Tethered root w' := by
  intro n x y c hn entries fired
  rw [same n (List.mem_map_of_mem hn)] at fired
  exact h n x y c hn entries fired

theorem Confined.cell (h : Confined root w w') (hx : x.id ∉ root.numbers operands) :
    w'.cell x = w.cell x := by
  obtain ⟨value, generation⟩ := h.binding x fun hi => hx (numbers_mono targets_subset hi)
  obtain ⟨watches, next⟩ := h.watches x fun hi => hx (numbers_mono compared_subset hi)
  generalize w'.cell x = cell', w.cell x = cell at value generation watches next
  cases cell
  cases cell'
  simp_all

section Turns

variable {me other root : Relation Function} {b w v : World Function σ}

/-- **A call cannot tell the worlds apart**, and they are apart in nothing more after it. -/
theorem Beside.call {foreign : Nat → Prop} (own : ∀ i ∈ root.numbers operands, ¬ foreign i)
    (h : Beside root foreign b w v) (request : Request) :
    Concur (fun _ => True) (Beside root foreign b) (request.act root w) (request.act root v) := by
  have shares := Beside.shares root foreign b
  have within := territory_holds own
  have callback (f args) : Concurs (fun _ => True) (Beside root foreign b)
      (Function.call f args : Act Function σ Value) (Function.call f args) := by
    intro w v hw
    rw [Function.call_eq, Function.call_eq]
    cases f args with
    | ok value => exact .ok hw
    | error message => exact .error trivial hw
  cases request with
  | solve fuel =>
    have solved : Concurs _ _ (root.solveUnder (fun _ => Function.call) fuel [])
        (root.solveUnder (fun _ => Function.call) fuel []) :=
      shares.solve (fun _ => callback) within (.inl fun _ => trivial)
    rw [solveUnder_const] at solved
    exact solved.bind (fun _ => .pure _) w v h
  | reset =>
    exact (shares.reset (c := []) within (.inl fun _ => trivial)).bind (fun _ => .pure _) w v h

/-- A call on a root is confined to it, and leaves its notes in order. -/
theorem Tethered.call (noted : Tethered root w) (request : Request) :
    Confined root w ((request.act root).final w) ∧ Tethered root ((request.act root).final w) := by
  have start : Beside root (fun _ => False) w w w := .start (fun _ _ _ _ => id) noted
  have after := (start.call (fun _ _ => id) request).final
  exact ⟨after.confined, after.noted⟩

/-- When two roots are driven in turns, `me` looks in `w` as it looks in `v`, where it is driven alone. -/
structure Abreast (me other : Relation κ) (w v : World κ σ) : Prop where
  beside : Beside me (· ∈ other.numbers targets) w w v
  noted : Tethered other w

namespace Abreast

variable (h : Abreast me other w v) (apart : Independent me other)
include h apart

/-- A call on the root, in both worlds. -/
theorem mine (request : Request) :
    (request.act me).reply w = (request.act me).reply v ∧
      Abreast me other ((request.act me).final w) ((request.act me).final v) := by
  have own : ∀ i ∈ me.numbers operands, i ∉ other.numbers targets :=
    fun i hi ht => apart.vars i hi (numbers_mono targets_subset ht)
  have ended := h.beside.call own request
  have after := ended.final
  exact ⟨ended.reply, after.rebase, h.noted.of_node fun n hn =>
    after.confined.node n (apart.symm.nodes n hn)⟩

/-- A call on the other root, in the one world only. -/
theorem others (request : Request) : Abreast me other ((request.act other).final w) v := by
  obtain ⟨confined, noted⟩ := h.noted.call request
  have cell (x : Var) (hx : x.id ∈ me.numbers operands) :=
    confined.cell (apart.vars x.id hx)
  have node (n : Nat) (hn : n ∈ me.ids) := confined.node n (apart.nodes n hn)
  refine { noted, beside := {
    confined := (Confined.steady me).refl _
    cell := fun x hx => ?cell
    value := fun x hx => (h.beside.value x hx).trans (confined.binding x hx).1.symm
    asked := fun x hx watch hw => ?asked
    node := fun n hn => ?node
    noted := h.beside.noted.of_node node } }
  case cell => rw [cell x hx, h.beside.cell x hx]
  case asked =>
    rw [cell x (numbers_mono targets_subset hx)] at hw
    exact h.beside.asked x hx watch hw
  case node => rw [node n hn, h.beside.node n hn]

end Abreast

/-- What is seen of one root in turns is what is seen of it alone. -/
theorem Abreast.serve {roots : Bool → Relation Function} {side : Bool}
    (h : Abreast (roots side) (roots !side) w v) (apart : Independent (roots side) (roots !side))
    (calls : List (Bool × Request)) :
    (serve roots calls w).filter (·.1 == side) = serve roots (calls.filter (·.1 == side)) v := by
  induction calls generalizing w v with
  | nil => rfl
  | cons call rest ih =>
    obtain ⟨turn, request⟩ := call
    cases mine : turn == side with
    | true =>
      obtain rfl := beq_iff_eq.mp mine
      obtain ⟨reply, after⟩ := h.mine apart request
      rw [RelationSearch.serve, List.filter_cons, if_pos mine, List.filter_cons, if_pos mine,
        RelationSearch.serve, ih after, reply, after.beside.sight]
    | false =>
      obtain rfl : turn = !side := by cases turn <;> cases side <;> first | rfl | cases mine
      have out : ¬ (!side) == side := by rw [mine]; exact Bool.false_ne_true
      rw [RelationSearch.serve, List.filter_cons, if_neg out, List.filter_cons, if_neg out,
        ih (h.others apart request)]

end Turns

/-! ## Interference -/

section Histories

variable {holds : σ → List (Relation κ)}

/-- At every point of a history, comparisons have noted watches at their own operands only. -/
theorem History.tethered (h : History holds w) (reached : Reaches (holds w.client) root) :
    Tethered root w := by
  obtain ⟨⟨made, books⟩, -⟩ := h.books
  intro n x y c hs entries fired entry hentry
  have below : Reaches (holds w.client) (.compare n x y c) :=
    reached.imp fun _ ⟨held, sub⟩ => ⟨held, mem_subs_trans hs sub⟩
  have known := books.inventory.mem_of_reaches below
  have alive : w.live n = true := (books.inventory.live_iff_reaches known).mpr below
  have noted : listed (w.recorded (.compare n x y c)) entry.1 entry.2 = true := by
    rw [World.recorded_of_fired alive fired]
    exact List.any_eq_true.mpr ⟨entry, hentry, by simp⟩
  obtain ⟨watch, -, -, m, x', y', same, side⟩ := books.registry.left _ known _ _ noted
  cases same
  split at side
  · exact side.1 ▸ mem_numbers hs (by simp [compared])
  · exact side.1 ▸ mem_numbers hs (by simp [compared])

end Histories

namespace Relation

/-- **Independent graphs do not interfere.**  At every point of a history, a call on a root rebinds only what
its domains and conversions bind, touches watches only at the operands of its comparisons, and
changes only the nodes that it is made of.  When calls are made in turns on two roots without a common node
or variable, in any order, what each call on one of them answers and what is seen of its variables and
nodes is what it is without the calls on the other, unless a watch ties what one root binds to what the
other binds. -/
theorem independent_in_turns {holds : σ → List (Relation Function)} {w : World Function σ}
    (h : History holds w) :
    (∀ root, Reaches (holds w.client) root → ∀ request : Request,
      Confined root w ((request.act root).final w)) ∧
    ∀ roots : Bool → Relation Function, (∀ side, Reaches (holds w.client) (roots side)) →
      Independent (roots true) (roots false) → (∀ side, Unlinked (roots side) (roots !side) w) →
      ∀ calls side, (serve roots calls w).filter (·.1 == side) =
        serve roots (calls.filter (·.1 == side)) w := by
  refine ⟨fun root reached request => ((h.tethered reached).call request).1,
    fun roots reached apart unlinked calls side => ?_⟩
  have together : Abreast (roots side) (roots !side) w w :=
    ⟨.start (unlinked side) (h.tethered (reached side)), h.tethered (reached !side)⟩
  refine together.serve ?_ calls
  cases side with
  | true => exact apart
  | false => exact apart.symm

/-- A comparison of two variables. -/
def tie : Relation Function := .compare 0 ⟨0, "X"⟩ ⟨1, "Y"⟩ .equality

/-- A domain for each of the variables that the comparison compares. -/
def ends : Bool → Relation Function
  | true => .domain 1 ⟨0, "X"⟩ [.bool true]
  | false => .domain 2 ⟨1, "Y"⟩ [.bool false]

/-- The client has made the comparison and the domains. -/
def untied : World Function (List (Relation Function)) :=
  { handless.added.added.added with client := [ends false, ends true, tie] }

theorem history_untied : History id untied := by
  have compared := Assembly.create (.compare · ⟨0, "X"⟩ ⟨1, "Y"⟩ .equality) []
    (.start [] handless) rfl (.refl _)
  have first := Assembly.create (.domain · ⟨0, "X"⟩ [.bool true]) _ compared rfl (.refl _)
  have second := Assembly.create (.domain · ⟨1, "Y"⟩ [.bool false]) _ first rfl (.refl _)
  refine history_handless.errand (.assemble second ?_ (.refl _))
  exact ⟨rfl, fun _ => rfl, fun _ => rfl, fun _ => rfl, fun _ => rfl, fun _ => rfl⟩

/-- The client has solved the comparison as well, which has left watches at both variables. -/
def tied : World Function (List (Relation Function)) := (tie.solve Function.call 0).final untied

theorem history_tied : History id tied :=
  history_untied.errand (.solve Function.call 0 ⟨tie, by simp [untied], mem_subs_self _⟩
    fun f args w _ => .function f args w)

theorem reaches_ends (side : Bool) : Reaches [ends false, ends true, tie] (ends side) :=
  ⟨ends side, by cases side <;> simp, mem_subs_self _⟩

theorem independent_ends : Independent (ends true) (ends false) :=
  ⟨by decide, by decide⟩

/-- As long as the comparison is not pending, the domains do not interfere. -/
theorem untied_domains_in_turns :
    (serve ends [(true, .solve 0), (false, .solve 0), (true, .reset)] untied).filter (·.1 == false) =
      serve ends [(false, .solve 0)] untied ∧
    (serve ends [(false, .solve 0)] untied).map (·.2.reply) = [.ok (some true)] := by
  obtain ⟨-, turns⟩ := independent_in_turns history_untied
  refine ⟨turns ends reaches_ends independent_ends (fun _ x _ watch hw => ?_) _ false, rfl⟩
  have bare : (untied.cell x).watches = [] := by
    change (Table.empty.get x.id : Cell Function).watches = []
    rw [Table.get_empty]
    rfl
  rw [bare] at hw
  cases hw

/-- While a comparison outside both graphs is pending, two graphs without a common node or variable interfere:
the second domain has a value for its variable alone, and has none once the first one has bound the
other variable. -/
theorem pending_comparison_ties :
    History id tied ∧ (∀ side, Reaches (id tied.client) (ends side)) ∧
      Independent (ends true) (ends false) ∧
      (serve ends [(true, .solve 0), (false, .solve 0)] tied).filter (·.1 == false) ≠
        serve ends [(false, .solve 0)] tied := by
  refine ⟨history_tied, reaches_ends, independent_ends, fun same => ?_⟩
  have replies := congrArg (List.map fun seen : Bool × Sight => seen.2.reply) same
  change [Except.ok (some false)] = [Except.ok (some true)] at replies
  cases replies

end Relation
end RelationSearch
