import RelationSearch.Proofs.Graph
import RelationSearch.Search.Function

/-! # What a call leaves alone

A call of `solve` or `reset` changes no node but those of its relation, and when it is over every node
is as busy as it was before (`Relation.solve_frame`, `Relation.reset_frame`).  Callbacks are only asked
to leave the nodes alone (`Caller.SparesNodes`); they may bind variables.

Two inductions are packaged on the way.  `Conducts` runs over a graph: a relation between worlds that is
kept by the calls on the leaves, and by what a call on a combination does besides calling its parts, is
kept by every call on every node.  `Works` runs over the program of a leaf: a relation that every
step keeps is kept by the leaf's search and by its undoing.  A relation that does not depend on which
variable is touched is easier to judge (`Suits`).
-/
namespace RelationSearch

variable {κ σ : Type} {call : Caller κ σ} {fuel : Nat} {root s l r : Relation κ}
variable {P : World κ σ → World κ σ → Prop} {n : Nat}

open Act RelationSearch.Relation

/-! ## Induction over a graph -/

/-- Everything that calls on the nodes of a graph are put together from keeps `P`. -/
structure Conducts (call : Caller κ σ) (fuel : Nat) (root : Relation κ)
    (P : World κ σ → World κ σ → Prop) : Prop where
  steady : Steady P
  solveLeaf : ∀ s ∈ root.subs, s.IsLeaf → Keeps P (s.solve call fuel)
  resetLeaf : ∀ s ∈ root.subs, s.IsLeaf → Keeps P (s.reset : Act κ σ Unit)
  setProgress : ∀ s ∈ root.subs, ¬ s.IsLeaf → ∀ p, Keeps P (Act.setProgress s.node p : Act κ σ Unit)
  answering : ∀ s ∈ root.subs, ¬ s.IsLeaf → ∀ search, Keeps P search → Keeps P (answering s search)
  rewinding : ∀ s ∈ root.subs, ¬ s.IsLeaf → ∀ undo, Keeps P undo → Keeps P (rewinding s undo)

namespace Conducts

theorem conjoin (h : Steady P) {left right : Act κ σ Bool} {rewindRight : Act κ σ Unit}
    (hn : ∀ p, Keeps P (Act.setProgress n p : Act κ σ Unit)) (hl : left.Keeps P)
    (hr : right.Keeps P) (hw : rewindRight.Keeps P) (fuel : Nat) :
    Keeps P (conjoin n left right rewindRight fuel) := by
  induction fuel with
  | zero => exact .throw h _
  | succ fuel ih =>
    refine .ite h hl ?_ (.bind h (hn _) fun _ => .pure h _)
    exact .bind h (hn _) fun _ => .ite h hr (.pure h _) (.bind h hw fun _ => ih)

theorem advanceAnd (h : Steady P) {left right : Act κ σ Bool} {rewindRight : Act κ σ Unit}
    (hn : ∀ p, Keeps P (Act.setProgress n p : Act κ σ Unit)) (hl : left.Keeps P)
    (hr : right.Keeps P) (hw : rewindRight.Keeps P) (fuel : Nat) :
    Keeps P (advanceAnd fuel n left right rewindRight) := by
  have loop := conjoin h hn hl hr hw fuel
  refine .bind h (.progress h n) fun p => ?_
  cases p with
  | exhausted => exact .pure h _
  | retrying => exact .ite h hr (.pure h _) (.bind h hw fun _ => loop)
  | _ => exact loop

theorem advanceOr (h : Steady P) {left right : Act κ σ Bool} {rewindLeft : Act κ σ Unit}
    (hn : ∀ p, Keeps P (Act.setProgress n p : Act κ σ Unit)) (hl : left.Keeps P)
    (hr : right.Keeps P) (hw : rewindLeft.Keeps P) :
    Keeps P (advanceOr n left right rewindLeft) := by
  have later : Keeps P (disjoinRight n right) :=
    .ite h hr (.pure h _) (.bind h (hn _) fun _ => .pure h _)
  refine .bind h (.progress h n) fun p => ?_
  cases p with
  | exhausted => exact .pure h _
  | inRight => exact later
  | _ =>
    exact .ite h hl (.bind h (hn _) fun _ => .pure h _)
      (.bind h hw fun _ => .bind h (hn _) fun _ => later)

theorem reset (h : Conducts call fuel root P) (hs : s ∈ root.subs) :
    Keeps P (s.reset : Act κ σ Unit) := by
  induction s with
  | and n l r ihl ihr =>
    refine h.rewinding _ hs not_isLeaf_and _ ?_
    exact .bind h.steady (ihr (mem_subs_of_part right_part_and hs))
      fun _ => ihl (mem_subs_of_part left_part_and hs)
  | or n l r ihl ihr =>
    refine h.rewinding _ hs not_isLeaf_or _ ?_
    exact .bind h.steady (ihl (mem_subs_of_part left_part_or hs))
      fun _ => ihr (mem_subs_of_part right_part_or hs)
  | domain | convert | compare | predicate | always | never => exact h.resetLeaf _ hs rfl

theorem solve (h : Conducts call fuel root P) (hs : s ∈ root.subs) :
    Keeps P (s.solve call fuel) := by
  induction s with
  | and n l r ihl ihr =>
    have hl := mem_subs_of_part left_part_and hs
    have hr := mem_subs_of_part right_part_and hs
    exact h.answering _ hs not_isLeaf_and _ (advanceAnd h.steady
      (h.setProgress _ hs not_isLeaf_and) (ihl hl) (ihr hr) (h.reset hr) fuel)
  | or n l r ihl ihr =>
    have hl := mem_subs_of_part left_part_or hs
    have hr := mem_subs_of_part right_part_or hs
    exact h.answering _ hs not_isLeaf_or _ (advanceOr h.steady
      (h.setProgress _ hs not_isLeaf_or) (ihl hl) (ihr hr) (h.reset hl))
  | domain | convert | compare | predicate | always | never => exact h.solveLeaf _ hs rfl

end Conducts

/-! ## Induction over the program of a leaf -/

namespace Relation

/-- The variables that a leaf binds and unbinds. -/
def targets : Relation κ → List Var
  | .domain _ x _ => [x]
  | .convert _ _ y _ => [y]
  | _ => []

/-- The variables at which a leaf leaves watches. -/
def compared : Relation κ → List Var
  | .compare _ x y _ => [x, y]
  | _ => []

end Relation

section Offers

variable (steady : Steady P) (callback : ∀ k args, Keeps P (call k args))
include steady callback

theorem keeps_comparison (c : Comparison κ) (u v : Value) : Keeps P (c.holds call u v) := by
  cases c with
  | equality => exact .pure steady _
  | custom test => exact .bind steady (callback _ _) fun _ => .pure steady _

theorem keeps_acceptedBy (v : Value) (watches : List (Watch κ)) :
    Keeps P (acceptedBy call v watches) := by
  induction watches with
  | nil => exact .pure steady _
  | cons watch rest ih =>
    refine .ite steady (.bind steady (.value steady _) fun held => ?_) ih (.pure steady _)
    split
    · exact .pure steady _
    · split <;> exact keeps_comparison steady callback _ _ _

/-- Offering a value to a variable asks its watches, and then binds it or says that it was refused. -/
theorem keeps_bind {x : Var} (put : ∀ w v, P w (w.modifyCell x (·.put v)))
    (record : ∀ w event, P w (w.record event)) (v : Value) : Keeps P (x.bind call v) :=
  .get_bind steady fun _ => .ite steady (keeps_acceptedBy steady callback _ _)
    (.bind steady (fun w => put w v) fun _ => .pure steady _)
    (.bind steady (fun w => record w fun _ => .rejected x.name v.image) fun _ => .pure steady _)

end Offers

/-- Every step of the leaf `s` keeps `P`.  A comparison takes its turn, and takes it back, in one step. -/
structure Works (call : Caller κ σ) (s : Relation κ) (P : World κ σ → World κ σ → Prop) : Prop where
  steady : Steady P
  callback : ∀ k args, Keeps P (call k args)
  record : ∀ w event, P w (w.record event)
  put : ∀ x ∈ s.targets, ∀ w v, P w (w.modifyCell x (·.put v))
  clear : ∀ x ∈ s.targets, ∀ w, P w (w.modifyCell x Cell.clear)
  note : s.compared = [] → ∀ w p, P w (w.noted s.node p)
  turn : ∀ n x y c, s = .compare n x y c → Keeps P (advanceCompare call n x y c)
  back : s.compared ≠ [] → Keeps P (rewinding s (retract s))

namespace Works

section Steps

variable (h : Works call s P)
include h

theorem bind {x : Var} (hx : x ∈ s.targets) (v : Value) : Keeps P (x.bind call v) :=
  keeps_bind h.steady h.callback (h.put x hx) h.record v

theorem unbind {x : Var} (hx : x ∈ s.targets) : Keeps P (x.unbind : Act κ σ Unit) :=
  fun w => h.clear x hx w

theorem setProgress (plain : s.compared = []) (p : Progress) :
    Keeps P (Act.setProgress s.node p : Act κ σ Unit) :=
  fun w => h.note plain w p

end Steps

section Domain

variable {x : Var} {values : List Value} (h : Works call (.domain n x values) P)
include h

theorem offer (rest : List Value) : Keeps P (offer call n x rest) := by
  have hx : x ∈ (Relation.domain n x values : Relation κ).targets := List.mem_singleton_self x
  induction rest with
  | nil =>
    exact .bind h.steady (h.setProgress rfl _) fun _ => .bind h.steady (h.unbind hx) fun _ =>
      .pure h.steady _
  | cons v rest ih =>
    exact .bind h.steady (h.setProgress rfl _) fun _ => .ite h.steady (h.bind hx v)
      (.pure h.steady _) ih

theorem advanceDomain : Keeps P (advanceDomain call n x values) := by
  refine .bind h.steady (.progress h.steady n) fun p => ?_
  split
  · refine .bind h.steady (.value h.steady x) fun held => ?_
    split
    · exact .bind h.steady (h.setProgress rfl _) fun _ => .pure h.steady _
    · exact h.offer _
  · exact h.offer _
  · exact .pure h.steady _

end Domain

section Convert

variable {x y : Var} {f : κ} (h : Works call (.convert n x y f) P)
include h

theorem releaseTarget : Keeps P (releaseTarget n y : Act κ σ Unit) := by
  refine .bind h.steady (.progress h.steady n) fun p => ?_
  split
  · exact .bind h.steady (h.unbind (List.mem_singleton_self y)) fun _ => h.setProgress rfl _
  · exact .pure h.steady _

theorem applyConversion (v : Value) (generation : Nat) (ownsTarget : Bool) :
    Keeps P (applyConversion call n y f v generation ownsTarget) := by
  refine .bind h.steady (h.setProgress rfl _) fun _ => .bind h.steady (h.callback _ _) fun result =>
    .bind h.steady (.value h.steady y) fun held => ?_
  split
  · exact .pure h.steady _
  · exact .ite h.steady (h.bind (List.mem_singleton_self y) _)
      (.bind h.steady (h.setProgress rfl _) fun _ => .pure h.steady _)
      (.bind h.steady h.releaseTarget fun _ => .pure h.steady _)

theorem advanceConvert (r : Relation κ) : Keeps P (advanceConvert call r n x y f) := by
  refine .get_bind h.steady fun w => ?_
  dsimp only
  split
  · exact .throw h.steady _
  · refine .bind h.steady (.progress h.steady n) fun p => ?_
    split
    · split
      · exact .bind h.steady h.releaseTarget fun _ => .pure h.steady _
      · exact h.applyConversion _ _ _
    · exact h.applyConversion _ _ _

end Convert

theorem advancePredicate {xs : List Var} {f : κ} (h : Works call (.predicate n xs f) P)
    (r : Relation κ) : Keeps P (advancePredicate call r n xs f) := by
  refine .bind h.steady (.progress h.steady n) fun p => ?_
  split
  · exact .pure h.steady _
  · refine .get_bind h.steady fun w => ?_
    split
    · exact .throw h.steady _
    · exact .bind h.steady (h.setProgress rfl _) fun _ => .bind h.steady (h.callback _ _) fun _ =>
        .pure h.steady _

theorem advanceAlways (h : Works call (.always n) P) : Keeps P (advanceAlways n : Act κ σ Bool) := by
  refine .bind h.steady (.progress h.steady n) fun p => ?_
  split
  · exact .pure h.steady _
  · exact .bind h.steady (h.setProgress rfl _) fun _ => .pure h.steady _

/-- A call of `solve` on a leaf keeps what its steps keep, if `answering` does. -/
theorem solve (h : Works call s P) (hs : s.IsLeaf)
    (ha : ∀ search, Keeps P search → Keeps P (answering s search)) :
    Keeps P (s.solve call fuel) := by
  cases s with
  | domain n x values => exact ha _ h.advanceDomain
  | convert n x y f => exact ha _ (h.advanceConvert _)
  | compare n x y c => exact ha _ (h.turn n x y c rfl)
  | predicate n xs f => exact ha _ (h.advancePredicate _)
  | always n => exact ha _ h.advanceAlways
  | never n => exact ha _ (.pure h.steady _)
  | and | or => cases hs

theorem reset (h : Works call s P) (hs : s.IsLeaf)
    (hr : s.compared = [] → ∀ undo, Keeps P undo → Keeps P (rewinding s undo)) :
    Keeps P (s.reset : Act κ σ Unit) := by
  cases s with
  | domain n x values =>
    refine hr rfl _ (.bind h.steady (.progress h.steady n) fun p => ?_)
    split
    · exact h.unbind (List.mem_singleton_self x)
    · exact .pure h.steady _
  | convert n x y f => exact hr rfl _ h.releaseTarget
  | compare n x y c => exact h.back (List.cons_ne_nil _ _)
  | predicate | always | never => exact hr rfl _ (.pure h.steady _)
  | and | or => cases hs

end Works

/-- Every primitive step of the leaf with the node `n` keeps `P`, whichever variable it is about. -/
structure Suits (call : Caller κ σ) (n : Nat) (P : World κ σ → World κ σ → Prop) : Prop where
  steady : Steady P
  callback : ∀ k args, Keeps P (call k args)
  modifyCell : ∀ w x f, P w (w.modifyCell x f)
  record : ∀ w event, P w (w.record event)
  setProgress : ∀ p, Keeps P (Act.setProgress n p : Act κ σ Unit)

namespace Suits

variable (h : Suits call n P)
include h

theorem dropWatches (entries : List (Var × Nat)) :
    Keeps P (dropWatches entries : Act κ σ Unit) := by
  induction entries with
  | nil => exact .pure h.steady _
  | cons entry rest ih => exact .bind h.steady (fun w => h.modifyCell w _ _) fun _ => ih

theorem deferOperand (value : Option Value) (x other : Var) (c : Comparison κ) (onLeft : Bool) :
    Keeps P (deferOperand value x other c onLeft : Act κ σ _) := by
  cases value with
  | some v => exact .pure h.steady _
  | none => exact .bind h.steady (fun w => h.modifyCell w x _) fun _ => .pure h.steady _

theorem advanceCompare (x y : Var) (c : Comparison κ) : Keeps P (advanceCompare call n x y c) := by
  refine .bind h.steady (.progress h.steady n) fun p => ?_
  split
  · exact .bind h.steady (h.dropWatches _) fun _ => .bind h.steady (h.setProgress _) fun _ =>
      .pure h.steady _
  · refine .bind h.steady (h.setProgress _) fun _ => .bind h.steady (.value h.steady x) fun left =>
      .bind h.steady (.value h.steady y) fun right => ?_
    split
    · exact keeps_comparison h.steady h.callback _ _ _
    · exact .bind h.steady (h.deferOperand _ _ _ _ _) fun _ =>
        .bind h.steady (h.deferOperand _ _ _ _ _) fun _ =>
          .bind h.steady (h.setProgress _) fun _ => .pure h.steady _

theorem retractCompare (x y : Var) (c : Comparison κ) :
    Keeps P (retract (.compare n x y c) : Act κ σ Unit) := by
  refine .bind h.steady (.progress h.steady n) fun p => ?_
  split
  · exact h.dropWatches _
  · exact .pure h.steady _

omit h in
/-- What suits a node whichever variables are touched suits the work of its leaf. -/
theorem works (h : Suits call s.node P)
    (hr : ∀ undo, Keeps P undo → Keeps P (rewinding s undo)) : Works call s P where
  steady := h.steady
  callback := h.callback
  record := h.record
  put _ _ w _ := h.modifyCell w _ _
  clear _ _ w := h.modifyCell w _ _
  note _ w p := h.setProgress p w
  turn n x y c e := by subst e; exact h.advanceCompare x y c
  back some := by
    cases s with
    | compare n x y c => exact hr _ (h.retractCompare x y c)
    | _ => exact absurd rfl some

end Suits

/-! ## Frames -/

/-- A relation that every primitive step keeps, on whichever node, is kept by every call. -/
theorem Conducts.of_steps (root : Relation κ) (steady : Steady P)
    (callback : ∀ k args, Keeps P (call k args)) (modifyCell : ∀ w x f, P w (w.modifyCell x f))
    (modifyNode : ∀ w n f, P w (w.modifyNode n f)) (record : ∀ w event, P w (w.record event)) :
    Conducts call fuel root P := by
  have suits (n : Nat) : Suits call n P :=
    ⟨steady, callback, modifyCell, record, fun p w => modifyNode w n _⟩
  have called (s : Relation κ) (search : Act κ σ Bool) (h : Keeps P search) :
      Keeps P (RelationSearch.answering s search) := by
    refine keeps_answering h steady.refl fun w w' _ inner => ?_
    have left : P w (w'.setBusy s.node false) :=
      steady.trans (steady.trans (modifyNode w s.node _) inner) (modifyNode w' s.node _)
    exact ⟨left, fun _ => steady.trans left (steady.trans (modifyNode _ s.node _) (record _ _))⟩
  have undone (s : Relation κ) (undo : Act κ σ Unit) (h : Keeps P undo) :
      Keeps P (RelationSearch.rewinding s undo) := by
    refine keeps_rewinding h steady.refl fun w w' _ inner => ?_
    have entered : P w w' := steady.trans (modifyNode w s.node _) inner
    refine ⟨steady.trans entered (modifyNode w' s.node _), steady.trans entered ?_⟩
    exact steady.trans (modifyNode w' s.node _)
      (steady.trans (modifyNode _ s.node _) (steady.trans (modifyNode _ s.node _) (record _ _)))
  exact {
    steady
    solveLeaf s _ leaf := ((suits s.node).works (undone s)).solve leaf (called s)
    resetLeaf s _ leaf := ((suits s.node).works (undone s)).reset leaf fun _ => undone s
    setProgress s _ _ p w := modifyNode w s.node _
    answering s _ _ := called s
    rewinding s _ _ := undone s }

/-- Callbacks change no node. -/
def Caller.SparesNodes (call : Caller κ σ) : Prop :=
  ∀ k args w, ((call k args).final w).nodes = w.nodes

theorem Function.call_eq (f : Function) (args : List Value) (w : World Function σ) :
    Function.call f args w = match f args with
      | .ok v => .ok v w
      | .error message => .error (.failed message) w := by
  unfold Function.call
  cases f args <;> rfl

theorem Function.sparesNodes : Caller.SparesNodes (Function.call (σ := σ)) := by
  intro f args w
  unfold Act.final
  rw [Function.call_eq]
  cases f args <;> rfl

/-- The same nodes are busy. -/
def SameBusy (w w' : World κ σ) : Prop := ∀ m, (w'.node m).busy = (w.node m).busy

namespace SameBusy

theorem steady : Steady (SameBusy : World κ σ → World κ σ → Prop) where
  refl _ _ := rfl
  trans h g m := (g m).trans (h m)

theorem modifyNode (w : World κ σ) (n : Nat) {f : Node → Node}
    (calm : ∀ node : Node, (f node).busy = node.busy) : SameBusy w (w.modifyNode n f) :=
  World.field_modifyNode Node.busy calm w n

theorem noted (w : World κ σ) (n : Nat) (p : Progress) : SameBusy w (w.noted n p) :=
  .modifyNode w n fun _ => rfl

theorem of_node {w w' : World κ σ} (same : ∀ m, w'.node m = w.node m) : SameBusy w w' :=
  fun m => by rw [same m]

theorem record (w : World κ σ) (event : World κ σ → Event) : SameBusy w (w.record event) :=
  of_node fun _ => World.node_record ..

/-- A mark that is set on a node that is not busy, and taken back. -/
theorem of_held {w w' : World κ σ} (idle : (w.node n).busy = false)
    (h : SameBusy (w.setBusy n true) w') : SameBusy w (w'.setBusy n false) := by
  intro m
  by_cases hm : n = m
  · subst hm; rw [idle]; simp [World.setBusy]
  · rw [World.node_setBusy_of_ne _ _ hm, h, World.node_setBusy_of_ne _ _ hm]

theorem concluded {w w' : World κ σ} (idle : (w.node s.node).busy = false)
    (h : SameBusy (w.setBusy s.node true) w') (answer : Bool) : SameBusy w (w'.concluded s answer) := by
  unfold World.concluded
  refine steady.trans (of_held idle h) (steady.trans ?_ (record _ _))
  exact .modifyNode _ _ fun _ => rfl

theorem rewound {w w' : World κ σ} (idle : (w.node s.node).busy = false)
    (h : SameBusy (w.setBusy s.node true) w') : SameBusy w (w'.rewound s) := by
  have fresh : SameBusy (w.setBusy s.node true) (w'.noted s.node .fresh) :=
    steady.trans h (.noted _ _ _)
  unfold World.rewound
  refine steady.trans (of_held idle fresh) (steady.trans ?_ (record _ _))
  exact .modifyNode _ _ fun _ => rfl

end SameBusy

/-- Only nodes of the relation differ between the worlds, and no node is more or less busy. -/
structure Within (r : Relation κ) (w w' : World κ σ) : Prop where
  node : ∀ m, m ∉ r.ids → w'.node m = w.node m
  busy : ∀ m, (w'.node m).busy = (w.node m).busy

theorem Within.steady (r : Relation κ) : Steady (Within r : World κ σ → World κ σ → Prop) where
  refl _ := ⟨fun _ _ => rfl, fun _ => rfl⟩
  trans h g := ⟨fun m hm => (g.node m hm).trans (h.node m hm),
    fun m => (g.busy m).trans (h.busy m)⟩

theorem Within.modifyNode {r : Relation κ} (hn : n ∈ r.ids) (w : World κ σ) {f : Node → Node}
    (hf : ∀ node, (f node).busy = node.busy) : Within r w (w.modifyNode n f) where
  node _ hm := World.node_modifyNode_of_ne w f fun h => hm (h ▸ hn)
  busy := SameBusy.modifyNode w n hf

/-- A node that is held while something else goes on is in the end what that left, and not busy. -/
theorem Within.of_held {r : Relation κ} (hn : n ∈ r.ids) {w w' : World κ σ}
    (idle : (w.node n).busy = false) (h : Within r (w.setBusy n true) w') :
    Within r w (w'.setBusy n false) where
  node m hm := by
    have ne : n ≠ m := fun h => hm (h ▸ hn)
    rw [World.node_setBusy_of_ne _ _ ne, h.node m hm, World.node_setBusy_of_ne _ _ ne]
  busy := SameBusy.of_held idle h.busy

theorem Within.record {r : Relation κ} (w : World κ σ) (event : World κ σ → Event) :
    Within r w (w.record event) :=
  ⟨fun m _ => by simp, fun m => by simp⟩

theorem Within.concluded {r : Relation κ} (hs : s.node ∈ r.ids) (w : World κ σ) (answer : Bool) :
    Within r (w.setBusy s.node false) (w.concluded s answer) := by
  unfold World.concluded
  refine (Within.steady r).trans ?_ (.record _ _)
  exact .modifyNode hs _ fun _ => rfl

theorem Within.rewound {r : Relation κ} (hs : s.node ∈ r.ids) (w : World κ σ) :
    Within r ((w.noted s.node .fresh).setBusy s.node false) (w.rewound s) := by
  unfold World.rewound
  refine (Within.steady r).trans ?_ (.record _ _)
  exact .modifyNode hs _ fun _ => rfl

theorem Within.answering {search : Act κ σ Bool} (hs : s.node ∈ r.ids)
    (h : Keeps (Within r) search) : Keeps (Within r) (answering s search) := by
  refine keeps_answering h (Within.steady r).refl fun w w' idle inner => ?_
  have left := Within.of_held hs idle inner
  exact ⟨left, fun answer => (Within.steady r).trans left (.concluded hs w' answer)⟩

theorem Within.rewinding {undo : Act κ σ Unit} (hs : s.node ∈ r.ids)
    (h : Keeps (Within r) undo) : Keeps (Within r) (rewinding s undo) := by
  refine keeps_rewinding h (Within.steady r).refl fun w w' idle inner => ⟨.of_held hs idle inner, ?_⟩
  have fresh := (Within.steady r).trans inner
    (.modifyNode hs w' (f := fun node => { node with progress := .fresh }) fun _ => rfl)
  exact (Within.steady r).trans (.of_held hs idle fresh) (.rewound hs w')

theorem Within.suits (quiet : call.SparesNodes) (hn : n ∈ r.ids) : Suits call n (Within r) where
  steady := Within.steady r
  callback k args w := by
    have h := quiet k args w
    exact ⟨fun m _ => by simp only [World.node, h], fun m => by simp only [World.node, h]⟩
  modifyCell w x f := ⟨fun _ _ => rfl, fun _ => rfl⟩
  record w event := .record w event
  setProgress p w := .modifyNode hn w fun _ => rfl

theorem Within.works (quiet : call.SparesNodes) (hs : s ∈ r.subs) : Works call s (Within r) :=
  (Within.suits quiet (List.mem_map_of_mem hs)).works fun _ => .rewinding (List.mem_map_of_mem hs)

theorem Within.conducts (quiet : call.SparesNodes) (root : Relation κ) :
    Conducts call fuel root (Within root) where
  steady := Within.steady root
  solveLeaf _ hs leaf := (Within.works quiet hs).solve leaf
    fun _ => .answering (List.mem_map_of_mem hs)
  resetLeaf _ hs leaf := (Within.works quiet hs).reset leaf
    fun _ _ => .rewinding (List.mem_map_of_mem hs)
  setProgress _ hs _ _ w := .modifyNode (List.mem_map_of_mem hs) w fun _ => rfl
  answering _ hs _ _ := .answering (List.mem_map_of_mem hs)
  rewinding _ hs _ _ := .rewinding (List.mem_map_of_mem hs)

/-- **A call of `solve` stays within its relation.** -/
theorem Relation.solve_frame (quiet : call.SparesNodes) (r : Relation κ) :
    Keeps (Within r) (r.solve call fuel) :=
  (Within.conducts quiet r).solve (mem_subs_self r)

/-- **A call of `reset` stays within its relation.** -/
theorem Relation.reset_frame (r : Relation κ) : Keeps (Within r) (r.reset : Act κ σ Unit) := by
  -- `reset` runs no callback, so that any caller will do.
  have conducts : Conducts (fun _ _ => pure default : Caller κ σ) 0 r (Within r) :=
    Within.conducts (fun _ _ _ => rfl) r
  exact conducts.reset (mem_subs_self r)

/-- A reset leaves the client's state alone. -/
theorem Relation.reset_client (r : Relation κ) :
    Keeps (fun w w' => w'.client = w.client) (r.reset : Act κ σ Unit) := by
  have conducts : Conducts (fun _ _ => pure default : Caller κ σ) 0 r
      fun w w' => w'.client = w.client := by
    exact .of_steps r ⟨fun _ => rfl, fun h g => g.trans h⟩ (fun _ _ _ => rfl) (fun _ _ _ => rfl)
      (fun _ _ _ => rfl) World.client_record
  exact conducts.reset (mem_subs_self r)

end RelationSearch
