import RelationSearch.Proofs.Rewinding

/-! # What the counters of a tree have to do with each other

A call counts at its node when it comes back with an answer.  In a tree whose root is the only part that is
called from outside, the counts of a node and of its two parts are tied to each other
(`Counters.Conjoins`, `Counters.Disjoins`): a conjunction has answered `true` as often as its right
side, and its right side was rewound once for every time it was exhausted, besides the times that the
conjunction was.

The equations hold after every call, however it ended (`Relation.counters_conserved`).  Inside a call
they hold whenever something may interrupt it: between a refusal of the right side and the reset that
makes up for it nothing can go wrong, because a reset of an idle tree always comes back.
-/
namespace RelationSearch

open Act RelationSearch.Relation

variable {κ σ α β : Type} {call : Caller κ σ} {fuel n : Nat} {root r s t l : Relation κ}
variable {w w' : World κ σ}

/-! ## Counts -/

namespace Counters

/-- After a call of `solve` that answered. -/
def solved (c : Counters) (answer : Bool) : Counters :=
  { c with solveCalls := c.solveCalls + 1, successes := c.successes + answer.toNat }

/-- After a call of `reset`. -/
def rewound (c : Counters) : Counters := { c with resets := c.resets + 1 }

/-- The counts of a conjunction, its left side and its right side agree. -/
structure Conjoins (n l r : Counters) : Prop where
  successes : n.successes = r.successes
  left : l.resets = n.resets
  right : r.resets = n.resets + (r.solveCalls - r.successes)

/-- The counts of a disjunction, its left side and its right side agree. -/
structure Disjoins (n l r : Counters) : Prop where
  successes : n.successes = l.successes + r.successes
  left : l.resets = n.resets + (l.solveCalls - l.successes)
  right : r.resets = n.resets

/-- No more calls came to an answer `true` than came to an answer. -/
def Sound (c : Counters) : Prop := c.successes ≤ c.solveCalls

variable {n l r : Counters}

theorem Sound.solved (h : n.Sound) (answer : Bool) : (n.solved answer).Sound := by
  cases answer <;> simp only [Sound, Counters.solved, Bool.toNat_false, Bool.toNat_true] at * <;> omega

namespace Conjoins

/-- The left side may be called, whatever it answers. -/
theorem solve_left (h : Conjoins n l r) (answer : Bool) : Conjoins n (l.solved answer) r :=
  ⟨h.successes, h.left, h.right⟩

/-- When the right side has answered `true`, so will the conjunction. -/
theorem found (h : Conjoins n l r) : Conjoins (n.solved true) l (r.solved true) := by
  obtain ⟨successes, left, right⟩ := h
  refine ⟨congrArg (· + 1) successes, left, ?_⟩
  simp only [solved, Bool.toNat_true]
  omega

/-- When the right side has answered `false`, it will be reset. -/
theorem refused (h : Conjoins n l r) (sound : r.Sound) : Conjoins n l (r.solved false).rewound := by
  obtain ⟨successes, left, right⟩ := h
  refine ⟨successes, left, ?_⟩
  simp only [solved, rewound, Bool.toNat_false, Sound] at *
  omega

/-- A conjunction that answers `false` has no more successes than before. -/
theorem exhausted (h : Conjoins n l r) : Conjoins (n.solved false) l r :=
  ⟨h.successes, h.left, h.right⟩

/-- Both sides are reset with the conjunction. -/
theorem rewound (h : Conjoins n l r) : Conjoins n.rewound l.rewound r.rewound := by
  obtain ⟨successes, left, right⟩ := h
  refine ⟨successes, congrArg (· + 1) left, ?_⟩
  simp only [Counters.rewound]
  omega

end Conjoins

namespace Disjoins

/-- When the left side has answered `true`, so will the disjunction. -/
theorem found_left (h : Disjoins n l r) : Disjoins (n.solved true) (l.solved true) r := by
  obtain ⟨successes, left, right⟩ := h
  refine ⟨?_, ?_, right⟩ <;> simp only [solved, Bool.toNat_true] <;> omega

/-- When the left side has answered `false`, it will be reset. -/
theorem refused (h : Disjoins n l r) (sound : l.Sound) : Disjoins n (l.solved false).rewound r := by
  obtain ⟨successes, left, right⟩ := h
  refine ⟨successes, ?_, right⟩
  simp only [solved, rewound, Bool.toNat_false, Sound] at *
  omega

/-- What the right side answers, the disjunction will. -/
theorem solve_right (h : Disjoins n l r) (answer : Bool) :
    Disjoins (n.solved answer) l (r.solved answer) := by
  obtain ⟨successes, left, right⟩ := h
  refine ⟨?_, left, right⟩
  simp only [solved]
  omega

/-- A disjunction that is exhausted goes on answering `false`. -/
theorem exhausted (h : Disjoins n l r) : Disjoins (n.solved false) l r :=
  ⟨h.successes, h.left, h.right⟩

/-- Both sides are reset with the disjunction. -/
theorem rewound (h : Disjoins n l r) : Disjoins n.rewound l.rewound r.rewound := by
  obtain ⟨successes, left, right⟩ := h
  refine ⟨successes, ?_, congrArg (· + 1) right⟩
  simp only [Counters.rewound]
  omega

end Disjoins

end Counters

/-- What has been counted at a node. -/
def World.counters (w : World κ σ) (n : Nat) : Counters := (w.node n).counters

namespace Relation

/-- The counts of a relation's node and of its parts agree. -/
def Tallies (w : World κ σ) : Relation κ → Prop
  | .and n l r => (w.counters n).Conjoins (w.counters l.node) (w.counters r.node)
  | .or n l r => (w.counters n).Disjoins (w.counters l.node) (w.counters r.node)
  | .domain .. | .convert .. | .compare .. | .predicate .. | .always _ | .never _ => True

/-- The counts agree at every node of a relation. -/
def Balanced (w : World κ σ) (r : Relation κ) : Prop :=
  ∀ s ∈ r.subs, s.Tallies w ∧ (w.counters s.node).Sound

/-- A relation with two parts, whose counts agree in the way `agree`. -/
structure Binary (s l r : Relation κ) (agree : Counters → Counters → Counters → Prop) : Prop where
  subs : s.subs = s :: (l.subs ++ r.subs)
  tallies : ∀ {σ : Type} (w : World κ σ),
    s.Tallies w = agree (w.counters s.node) (w.counters l.node) (w.counters r.node)

theorem binary_and (n : Nat) (l r : Relation κ) : Binary (.and n l r) l r Counters.Conjoins :=
  ⟨rfl, fun _ => rfl⟩

theorem binary_or (n : Nat) (l r : Relation κ) : Binary (.or n l r) l r Counters.Disjoins :=
  ⟨rfl, fun _ => rfl⟩

/-- The search that a call of `solve` makes. -/
def search (call : Caller κ σ) (fuel : Nat) : Relation κ → Act κ σ Bool
  | .domain n x values => advanceDomain call n x values
  | .convert n x y f => advanceConvert call (.convert n x y f) n x y f
  | .compare n x y c => advanceCompare call n x y c
  | .predicate n xs f => advancePredicate call (.predicate n xs f) n xs f
  | .and n l r => advanceAnd fuel n (l.solve call fuel) (r.solve call fuel) r.reset
  | .or n l r => advanceOr n (l.solve call fuel) (r.solve call fuel) l.reset
  | .always n => advanceAlways n
  | .never _ => return false

theorem solve_eq_answering (r : Relation κ) : r.solve call fuel = answering r (r.search call fuel) := by
  cases r <;> rfl

theorem reset_of_isLeaf (leaf : s.IsLeaf) : (s.reset : Act κ σ Unit) = rewinding s (retract s) := by
  cases s with
  | and | or => cases leaf
  | domain | convert | compare | predicate | always | never => rfl

end Relation

/-! ## What a call counts elsewhere -/

/-- While the root is being solved, callbacks leave alone what its nodes have counted, and the busy marks.
They may bind variables, and drive other relations; when they call the root, that is refused. -/
def Caller.SparesCounts (call : Caller κ σ) (root : Relation κ) : Prop :=
  ∀ k args (w : World κ σ), (w.node root.node).busy = true → SameBusy w ((call k args).final w) ∧
    ∀ m ∈ root.ids, ((call k args).final w).counters m = w.counters m

/-- While the root is being solved, its nodes have counted nothing, but for those with the given numbers, and
the same nodes are busy. -/
def CountsWithin (root : Relation κ) (ids : List Nat) (w w' : World κ σ) : Prop :=
  (w.node root.node).busy = true →
    SameBusy w w' ∧ ∀ m ∈ root.ids, m ∉ ids → w'.counters m = w.counters m

namespace World

@[simp] theorem counters_setBusy (w : World κ σ) (n : Nat) (busy : Bool) (m : Nat) :
    (w.setBusy n busy).counters m = w.counters m := by
  refine field_modifyNode Node.counters ?_ w n m
  exact fun _ => rfl

@[simp] theorem counters_noted (w : World κ σ) (n : Nat) (p : Progress) (m : Nat) :
    (w.noted n p).counters m = w.counters m := by
  refine field_modifyNode Node.counters ?_ w n m
  exact fun _ => rfl

theorem counters_blank (client : σ) (m : Nat) : ({ client } : World κ σ).counters m = {} := by
  rw [counters, node, Table.get_empty]
  rfl

theorem counters_concluded (w : World κ σ) (r : Relation κ) (answer : Bool) :
    (w.concluded r answer).counters r.node = (w.counters r.node).solved answer := by
  simp [World.counters, concluded, setBusy, Counters.solved]

theorem counters_concluded_of_ne (w : World κ σ) (r : Relation κ) (answer : Bool) {m : Nat}
    (ne : r.node ≠ m) : (w.concluded r answer).counters m = w.counters m :=
  congrArg Node.counters (node_concluded_of_ne _ _ _ ne)

theorem counters_rewound (w : World κ σ) (r : Relation κ) :
    (w.rewound r).counters r.node = (w.counters r.node).rewound := by
  simp [World.counters, rewound, setBusy, noted, Counters.rewound]

theorem counters_rewound_of_ne (w : World κ σ) (r : Relation κ) {m : Nat} (ne : r.node ≠ m) :
    (w.rewound r).counters m = w.counters m :=
  congrArg Node.counters (node_rewound_of_ne _ _ ne)

theorem busy_setBusy {w : World κ σ} (busy : (w.node n).busy = true ∨ m = n) :
    ((w.setBusy m true).node n).busy = true := by
  by_cases same : m = n
  · rw [same, setBusy, node_modifyNode_self]
  · rw [node_setBusy_of_ne _ _ same]
    exact busy.resolve_right same

end World

namespace CountsWithin

variable {ids : List Nat}

theorem steady (root : Relation κ) (ids : List Nat) :
    Steady (CountsWithin root ids : World κ σ → World κ σ → Prop) where
  refl _ _ := ⟨SameBusy.steady.refl _, fun _ _ _ => rfl⟩
  trans h g busy := by
    obtain ⟨marks, counts⟩ := h busy
    obtain ⟨marks', counts'⟩ := g ((marks _).trans busy)
    exact ⟨SameBusy.steady.trans marks marks', fun m hm out =>
      (counts' m hm out).trans (counts m hm out)⟩

theorem suits (spares : call.SparesCounts root) (ids : List Nat) (n : Nat) :
    Suits call n (CountsWithin root ids) where
  steady := steady root ids
  callback k args w busy := by
    obtain ⟨marks, counts⟩ := spares k args w busy
    exact ⟨marks, fun m hm _ => counts m hm⟩
  modifyCell w x f _ := ⟨SameBusy.of_node fun _ => rfl, fun _ _ _ => rfl⟩
  record w event _ := ⟨.record w event, fun m _ _ => congrArg Node.counters (World.node_record ..)⟩
  setProgress p w _ := ⟨.noted w n p, fun m _ _ => World.counters_noted ..⟩

theorem answering {search : Act κ σ Bool} (hs : s.node ∈ ids)
    (h : Keeps (CountsWithin root ids) search) :
    Keeps (CountsWithin root ids) (answering s search) := by
  refine keeps_answering h (steady root ids).refl fun w w' idle inner =>
    ⟨fun busy => ?_, fun answer busy => ?_⟩ <;>
      obtain ⟨marks, counts⟩ := inner (World.busy_setBusy (.inl busy))
  · refine ⟨.of_held idle marks, fun m hm out => ?_⟩
    rw [World.counters_setBusy, counts m hm out, World.counters_setBusy]
  · refine ⟨.concluded idle marks answer, fun m hm out => ?_⟩
    have ne : s.node ≠ m := fun e => out (e ▸ hs)
    rw [World.counters_concluded_of_ne _ _ _ ne, counts m hm out, World.counters_setBusy]

theorem rewinding {undo : Act κ σ Unit} (hs : s.node ∈ ids)
    (h : Keeps (CountsWithin root ids) undo) :
    Keeps (CountsWithin root ids) (rewinding s undo) := by
  refine keeps_rewinding h (steady root ids).refl fun w w' idle inner =>
    ⟨fun busy => ?_, fun busy => ?_⟩ <;>
      obtain ⟨marks, counts⟩ := inner (World.busy_setBusy (.inl busy))
  · refine ⟨.of_held idle marks, fun m hm out => ?_⟩
    rw [World.counters_setBusy, counts m hm out, World.counters_setBusy]
  · refine ⟨.rewound idle marks, fun m hm out => ?_⟩
    have ne : s.node ≠ m := fun e => out (e ▸ hs)
    rw [World.counters_rewound_of_ne _ _ ne, counts m hm out, World.counters_setBusy]

theorem conducts (spares : call.SparesCounts root) (r : Relation κ) :
    Conducts call fuel r (CountsWithin root r.ids) where
  steady := steady root r.ids
  solveLeaf s hs leaf :=
    ((suits spares r.ids s.node).works fun _ => rewinding (List.mem_map_of_mem hs)).solve leaf
      fun _ => answering (List.mem_map_of_mem hs)
  resetLeaf s hs leaf :=
    ((suits spares r.ids s.node).works fun _ => rewinding (List.mem_map_of_mem hs)).reset leaf
      fun _ _ => rewinding (List.mem_map_of_mem hs)
  setProgress s _ _ p w := (suits spares r.ids s.node).setProgress p w
  answering _ hs _ _ := answering (List.mem_map_of_mem hs)
  rewinding _ hs _ _ := rewinding (List.mem_map_of_mem hs)

end CountsWithin

section Leaves

variable {P : World κ σ → World κ σ → Prop}

theorem Suits.plain (h : Suits call s.node P) (plain : s.compared = []) : Works call s P where
  steady := h.steady
  callback := h.callback
  record := h.record
  put _ _ w _ := h.modifyCell w _ _
  clear _ _ w := h.modifyCell w _ _
  note _ w p := h.setProgress p w
  turn n x y c e := by
    subst e
    exact h.advanceCompare x y c
  back some := absurd plain some

/-- The search of a leaf keeps what its steps keep. -/
theorem Suits.search (h : Suits call s.node P) (leaf : s.IsLeaf) : Keeps P (s.search call fuel) := by
  cases s with
  | domain n x values => exact (h.plain rfl).advanceDomain
  | convert n x y f => exact (h.plain rfl).advanceConvert _
  | compare n x y c => exact h.advanceCompare x y c
  | predicate n xs f => exact (h.plain rfl).advancePredicate _
  | always n => exact (h.plain rfl).advanceAlways
  | never n => exact .pure h.steady _
  | and | or => cases leaf

theorem Suits.retract (h : Suits call s.node P) : Keeps P (retract s : Act κ σ Unit) := by
  cases s with
  | domain n x values =>
    refine .bind h.steady (.progress h.steady n) fun p => ?_
    split
    · exact fun w => h.modifyCell w x Cell.clear
    · exact .pure h.steady _
  | convert n x y f => exact (h.plain rfl).releaseTarget
  | compare n x y c => exact h.retractCompare x y c
  | predicate | always | never | and | or => exact .pure h.steady _

end Leaves

/-! ## Calls and their outcomes -/

/-- From a world with `P`, the computation leaves one with `Q`, which may depend on its answer, or, if it
is interrupted, one with `E`. -/
def Act.Meets (P : World κ σ → Prop) (Q : α → World κ σ → Prop) (E : World κ σ → Prop)
    (act : Act κ σ α) : Prop :=
  ∀ w, P w → match act w with
    | .ok a w' => Q a w'
    | .error _ w' => E w'

namespace Act.Meets

variable {P : World κ σ → Prop} {Q : α → World κ σ → Prop} {R : β → World κ σ → Prop}
variable {E E' : World κ σ → Prop} {act : Act κ σ α}

theorem pure {a : α} (h : ∀ w, P w → Q a w) : Meets P Q E (Pure.pure a) := h

theorem bind (h : Meets P Q E act) {next : α → Act κ σ β} (hn : ∀ a, Meets (Q a) R E (next a)) :
    Meets P R E (act >>= next) := by
  intro w hw
  have first := h w hw
  rw [bind_apply]
  cases ran : act w with
  | ok a w' =>
    rw [ran] at first
    exact hn a w' first
  | error why w' =>
    rw [ran] at first
    exact first

theorem mono (h : Meets P Q E act) {P' : World κ σ → Prop} {Q' : α → World κ σ → Prop}
    (pre : ∀ w, P' w → P w) (post : ∀ a w, Q a w → Q' a w) (cut : ∀ w, E w → E' w) :
    Meets P' Q' E' act := by
  intro w hw
  have ended := h w (pre w hw)
  cases ran : act w with
  | ok a w' =>
    rw [ran] at ended
    exact post a w' ended
  | error why w' =>
    rw [ran] at ended
    exact cut w' ended

/-- What is never interrupted meets everything that is asked of an interrupt. -/
theorem uninterrupted (h : Meets P Q (fun _ => False) act) : Meets P Q E act :=
  h.mono (fun _ h => h) (fun _ _ h => h) fun _ never => never.elim

theorem throw {why : Interrupt} (h : ∀ w, P w → E w) :
    Meets P Q E (MonadExcept.throw why : Act κ σ α) := h

/-- A computation that answers a Boolean, on which the rest depends. -/
theorem ite {test : Act κ σ Bool} {T : Bool → World κ σ → Prop} {yes no : Act κ σ α}
    (h : Meets P T E test) (hy : Meets (T true) Q E yes) (hn : Meets (T false) Q E no) :
    Meets P Q E (do if ← test then yes else no) :=
  h.bind fun a => by cases a <;> assumption

theorem setProgress {P' : World κ σ → Prop} (n : Nat) (p : Progress) (h : ∀ w, P w → P' (w.noted n p)) :
    Meets P (fun _ => P') E (Act.setProgress n p) := h

theorem progress_bind (n : Nat) {next : Progress → Act κ σ α} (hn : ∀ p, Meets P Q E (next p)) :
    Meets P Q E (Act.progress n >>= next) := fun w hw => hn _ w hw

end Act.Meets

/-! ## What a call counts at its node -/

/-- The relation is not being driven, the counts agree at all its nodes, and its own are `c`. -/
structure Accounts (s : Relation κ) (c : Counters) (w : World κ σ) : Prop where
  idle : s.Idle w
  balanced : s.Balanced w
  own : w.counters s.node = c

/-- The root is being solved, or it is the relation itself that is about to be called. -/
def Under (root s : Relation κ) (w : World κ σ) : Prop :=
  (w.node root.node).busy = true ∨ s.node = root.node

/-- A call of `solve` counts at its relation what it answers, and nothing if it is interrupted. -/
def SolveCounts (call : Caller κ σ) (fuel : Nat) (root s : Relation κ) : Prop :=
  ∀ c, (s.solve call fuel).Meets (fun w => Under root s w ∧ Accounts s c w)
    (fun answer => Accounts s (c.solved answer)) (Accounts s c)

/-- A call of `reset` always comes back, and counts at its relation. -/
def ResetCounts (σ : Type) (root s : Relation κ) : Prop :=
  ∀ c, (s.reset : Act κ σ Unit).Meets (fun w => Under root s w ∧ Accounts s c w)
    (fun _ => Accounts s c.rewound) fun _ => False

/-- During a search of the node `n`, which has counted `c` so far, its parts `l` and `r` are not being
driven, and what they have counted is as `agree` says. -/
structure Standing (root : Relation κ) (n : Nat) (l r : Relation κ) (c : Counters)
    (agree : Counters → Counters → Prop) (w : World κ σ) : Prop where
  busy : (w.node root.node).busy = true
  own : w.counters n = c
  idleL : l.Idle w
  idleR : r.Idle w
  balancedL : l.Balanced w
  balancedR : r.Balanced w
  agree : agree (w.counters l.node) (w.counters r.node)

/-- The parts `l` and `r` of the node `n` are in the graph of the root, and share no node. -/
structure Flanks (root : Relation κ) (n : Nat) (l r : Relation κ) : Prop where
  here : n ∈ root.ids
  left : l ∈ root.subs
  right : r ∈ root.subs
  outL : n ∉ l.ids
  outR : n ∉ r.ids
  apart : ∀ m ∈ l.ids, m ∉ r.ids

theorem Flanks.swap (h : Flanks root n l r) : Flanks root n r l :=
  ⟨h.here, h.right, h.left, h.outR, h.outL, fun m hr hl => h.apart m hl hr⟩

theorem Relation.Balanced.congr (h : s.Balanced w) (same : ∀ m ∈ s.ids, w'.counters m = w.counters m) :
    s.Balanced w' := by
  have at_ {t : Relation κ} (ht : t ∈ s.subs) : w'.counters t.node = w.counters t.node :=
    same _ (List.mem_map_of_mem ht)
  intro t ht
  obtain ⟨tallies, sound⟩ := h t ht
  rw [at_ ht]
  refine ⟨?_, sound⟩
  cases t with
  | and n l r =>
    have hl := at_ (mem_subs_of_part left_part_and ht)
    have hr := at_ (mem_subs_of_part right_part_and ht)
    simpa only [Tallies, hl, hr, show w'.counters n = w.counters n from at_ ht] using tallies
  | or n l r =>
    have hl := at_ (mem_subs_of_part left_part_or ht)
    have hr := at_ (mem_subs_of_part right_part_or ht)
    simpa only [Tallies, hl, hr, show w'.counters n = w.counters n from at_ ht] using tallies
  | domain | convert | compare | predicate | always | never => exact tallies

theorem Relation.Balanced.sound (h : s.Balanced w) : (w.counters s.node).Sound :=
  (h s (mem_subs_self s)).2

namespace Standing

variable {c : Counters} {A B : Counters → Counters → Prop}

theorem noted (h : Standing root n l r c A w) (p : Progress) : Standing root n l r c A (w.noted n p) where
  busy := (SameBusy.noted w n p root.node).trans h.busy
  own := (World.counters_noted ..).trans h.own
  idleL m hm := (SameBusy.noted w n p m).trans (h.idleL m hm)
  idleR m hm := (SameBusy.noted w n p m).trans (h.idleR m hm)
  balancedL := h.balancedL.congr fun _ _ => World.counters_noted ..
  balancedR := h.balancedR.congr fun _ _ => World.counters_noted ..
  agree := by simpa only [World.counters_noted] using h.agree

theorem mono (h : Standing root n l r c A w) (le : ∀ a b, b.Sound → A a b → B a b) :
    Standing root n l r c B w :=
  { h with agree := le _ _ h.balancedR.sound h.agree }

theorem swap (h : Standing root n l r c A w) : Standing root n r l c (fun b a => A a b) w where
  busy := h.busy
  own := h.own
  idleL := h.idleR
  idleR := h.idleL
  balancedL := h.balancedR
  balancedR := h.balancedL
  agree := h.agree

/-- What the left part is left with, while nothing else of the graph has counted. -/
theorem after_left (h : Standing root n l r c A w) (flanks : Flanks root n l r) {own : Counters}
    (accounts : Accounts l own w') (frame : CountsWithin root l.ids w w')
    (agree : B own (w.counters r.node)) : Standing root n l r c B w' := by
  obtain ⟨marks, counts⟩ := frame h.busy
  have right (m : Nat) (hm : m ∈ r.ids) : w'.counters m = w.counters m :=
    counts m (mem_ids_of_mem_subs flanks.right hm) fun on => flanks.apart m on hm
  refine ⟨(marks _).trans h.busy, ?_, accounts.idle, fun m hm => (marks m).trans (h.idleR m hm),
    accounts.balanced, h.balancedR.congr right, ?_⟩
  · exact (counts n flanks.here flanks.outL).trans h.own
  · rw [accounts.own, right _ (node_mem_ids r)]
    exact agree

/-- A call of `solve` on the left part. -/
theorem solve_left (flanks : Flanks root n l r) (counts : SolveCounts call fuel root l)
    (spares : call.SparesCounts root) {B : Bool → Counters → Counters → Prop}
    (le : ∀ answer a b, a.Sound → A a b → B answer (a.solved answer) b) :
    (l.solve call fuel).Meets (Standing root n l r c A) (fun answer => Standing root n l r c (B answer))
      (Standing root n l r c A) := by
  intro w h
  have ended := counts (w.counters l.node) w ⟨.inl h.busy, h.idleL, h.balancedL, rfl⟩
  have frame : CountsWithin root l.ids w ((l.solve call fuel).final w) :=
    (CountsWithin.conducts spares l).solve (mem_subs_self l) w
  unfold Act.final at frame
  generalize l.solve call fuel w = result at ended frame
  cases result with
  | ok answer w' =>
    exact h.after_left flanks ended frame (le answer _ _ h.balancedL.sound h.agree)
  | error why w' => exact h.after_left flanks ended frame h.agree

/-- A call of `reset` on the left part. -/
theorem reset_left (flanks : Flanks root n l r) (counts : ResetCounts σ root l)
    (le : ∀ a b, A a b → B a.rewound b) :
    (l.reset : Act κ σ Unit).Meets (Standing root n l r c A) (fun _ => Standing root n l r c B)
      fun _ => False := by
  intro w h
  have ended := counts (w.counters l.node) w ⟨.inl h.busy, h.idleL, h.balancedL, rfl⟩
  have within : Within l w ((l.reset : Act κ σ Unit).final w) := reset_frame l w
  have frame : CountsWithin root l.ids w ((l.reset : Act κ σ Unit).final w) :=
    fun _ => ⟨within.busy, fun m _ out => congrArg Node.counters (within.node m out)⟩
  unfold Act.final at frame
  generalize (l.reset : Act κ σ Unit) w = result at ended frame
  cases result with
  | ok answer w' => exact h.after_left flanks ended frame (le _ _ h.agree)
  | error why w' => exact ended

/-- A call of `solve` on the right part. -/
theorem solve_right (flanks : Flanks root n l r) (counts : SolveCounts call fuel root r)
    (spares : call.SparesCounts root) {B : Bool → Counters → Counters → Prop}
    (le : ∀ answer a b, b.Sound → A a b → B answer a (b.solved answer)) :
    (r.solve call fuel).Meets (Standing root n l r c A) (fun answer => Standing root n l r c (B answer))
      (Standing root n l r c A) :=
  (solve_left flanks.swap counts spares fun answer b a => le answer a b).mono
    (fun _ h => h.swap) (fun _ _ h => h.swap) fun _ h => h.swap

/-- A call of `reset` on the right part. -/
theorem reset_right (flanks : Flanks root n l r) (counts : ResetCounts σ root r)
    (le : ∀ a b, A a b → B a b.rewound) :
    (r.reset : Act κ σ Unit).Meets (Standing root n l r c A) (fun _ => Standing root n l r c B)
      fun _ => False :=
  (reset_left flanks.swap counts fun b a => le a b).mono
    (fun _ h => h.swap) (fun _ _ h => h.swap) fun _ h => h

end Standing

/-! ## The searches of conjunctions and disjunctions -/

/-- A search of the node `n` that has counted `c` brings its parts to where they will agree with what
the node counts next.  When it is interrupted, they agree with what it has counted. -/
def KeepsAccounts (root : Relation κ) (n : Nat) (l r : Relation κ)
    (agree : Counters → Counters → Counters → Prop) (c : Counters) (act : Act κ σ Bool) : Prop :=
  act.Meets (Standing root n l r c (agree c))
    (fun answer => Standing root n l r c (agree (c.solved answer))) (Standing root n l r c (agree c))

section Searches

variable {c : Counters} (flanks : Flanks root n l r) (spares : call.SparesCounts root)
include flanks spares

/-- The right side of a conjunction has its turn.  When it refuses, it is reset, and the search goes on. -/
theorem keepsAccounts_conjoinRight (solveR : SolveCounts call fuel root r)
    (resetR : ResetCounts σ root r) {left : Act κ σ Bool} {turns : Nat}
    (h : KeepsAccounts root n l r Counters.Conjoins c
      (conjoin n left (r.solve call fuel) r.reset turns)) :
    KeepsAccounts root n l r Counters.Conjoins c
      (conjoinRight n left (r.solve call fuel) r.reset turns) := by
  refine .ite (Standing.solve_right (B := fun answer a b =>
    if answer then (c.solved true).Conjoins a b else c.Conjoins a b.rewound)
    flanks solveR spares fun answer a b sound agree => ?_) (.pure fun w h => h) ?_
  · cases answer with
    | true => exact agree.found
    | false => exact agree.refused sound
  · exact .bind (Standing.reset_right flanks resetR fun a b agree => agree).uninterrupted fun _ => h

variable (solveL : SolveCounts call fuel root l) (solveR : SolveCounts call fuel root r)
include solveL solveR

theorem keepsAccounts_conjoin (resetR : ResetCounts σ root r) (turns : Nat) :
    KeepsAccounts root n l r Counters.Conjoins c
      (conjoin n (l.solve call fuel) (r.solve call fuel) r.reset turns) := by
  induction turns with
  | zero => exact .throw fun w h => h
  | succ turns ih =>
    refine .ite (Standing.solve_left (B := fun _ => c.Conjoins) flanks solveL spares
      fun answer a b _ agree => agree.solve_left answer) ?_ ?_
    · exact .bind (.setProgress n .retrying fun w h => h.noted _) fun _ =>
        keepsAccounts_conjoinRight flanks spares solveR resetR ih
    · exact .bind (.setProgress n .exhausted fun w h => h.noted _) fun _ =>
        .pure fun w h => h.mono fun _ _ _ agree => agree.exhausted

theorem keepsAccounts_advanceAnd (resetR : ResetCounts σ root r) :
    KeepsAccounts root n l r Counters.Conjoins c
      (advanceAnd fuel n (l.solve call fuel) (r.solve call fuel) r.reset) := by
  have loop := keepsAccounts_conjoin (c := c) flanks spares solveL solveR resetR fuel
  refine .progress_bind n fun p => ?_
  cases p with
  | exhausted => exact .pure fun w h => h.mono fun _ _ _ agree => agree.exhausted
  | retrying => exact keepsAccounts_conjoinRight flanks spares solveR resetR loop
  | fresh | binding | checked | applied | fired | inLeft | inRight => exact loop

omit solveL in
theorem keepsAccounts_disjoinRight :
    KeepsAccounts root n l r Counters.Disjoins c (disjoinRight n (r.solve call fuel)) := by
  refine .ite (Standing.solve_right (B := fun answer => (c.solved answer).Disjoins) flanks solveR spares
    fun answer a b _ agree => agree.solve_right answer) (.pure fun w h => h) ?_
  exact .bind (.setProgress n .exhausted fun w h => h.noted _) fun _ => .pure fun w h => h

theorem keepsAccounts_disjoinLeft (resetL : ResetCounts σ root l) :
    KeepsAccounts root n l r Counters.Disjoins c
      (disjoinLeft n (l.solve call fuel) (r.solve call fuel) l.reset) := by
  refine .ite (Standing.solve_left (B := fun answer a b =>
    if answer then (c.solved true).Disjoins a b else c.Disjoins a.rewound b)
    flanks solveL spares fun answer a b sound agree => ?_) ?_ ?_
  · cases answer with
    | true => exact agree.found_left
    | false => exact agree.refused sound
  · exact .bind (.setProgress n .inLeft fun w h => h.noted _) fun _ => .pure fun w h => h
  · exact .bind (Standing.reset_left flanks resetL fun a b agree => agree).uninterrupted fun _ =>
      .bind (.setProgress n .inRight fun w h => h.noted _) fun _ =>
        keepsAccounts_disjoinRight flanks spares solveR

theorem keepsAccounts_advanceOr (resetL : ResetCounts σ root l) :
    KeepsAccounts root n l r Counters.Disjoins c
      (advanceOr n (l.solve call fuel) (r.solve call fuel) l.reset) := by
  have left := keepsAccounts_disjoinLeft (c := c) flanks spares solveL solveR resetL
  refine .progress_bind n fun p => ?_
  cases p with
  | exhausted => exact .pure fun w h => h.mono fun _ _ _ agree => agree.exhausted
  | inRight => exact keepsAccounts_disjoinRight flanks spares solveR
  | fresh | binding | checked | applied | fired | inLeft | retrying => exact left

end Searches

/-! ## Calls -/

/-- A node without parts, which is not being driven, has its own counts only. -/
theorem Accounts.of_isLeaf {c : Counters} (leaf : s.IsLeaf) (idle : (w.node s.node).busy = false)
    (own : w.counters s.node = c) (sound : c.Sound) : Accounts s c w := by
  have only {t : Relation κ} (ht : t ∈ s.subs) : t = s := by simpa [subs_of_isLeaf leaf] using ht
  refine ⟨fun m hm => ?_, fun t ht => ?_, own⟩
  · obtain ⟨t, ht, rfl⟩ := List.mem_map.mp hm
    rw [only ht]
    exact idle
  · rw [only ht, own]
    refine ⟨?_, sound⟩
    cases s with
    | and | or => cases leaf
    | domain | convert | compare | predicate | always | never => trivial

namespace Relation.Binary

variable {agree : Counters → Counters → Counters → Prop} {A : Counters → Counters → Prop}
variable {c c' : Counters}

theorem mem_ids (two : Binary s l r agree) {m : Nat} : m ∈ s.ids ↔ m = s.node ∨ m ∈ l.ids ∨ m ∈ r.ids := by
  simp [ids, two.subs]

/-- A call begins. -/
theorem opened (two : Binary s l r agree) (flanks : Flanks root s.node l r) (under : Under root s w)
    (h : Accounts s c w) : Standing root s.node l r c (agree c) (w.setBusy s.node true) where
  busy := World.busy_setBusy under
  own := (World.counters_setBusy ..).trans h.own
  idleL := .setBusy (fun m hm => h.idle m (two.mem_ids.mpr (.inr (.inl hm)))) flanks.outL true
  idleR := .setBusy (fun m hm => h.idle m (two.mem_ids.mpr (.inr (.inr hm)))) flanks.outR true
  balancedL := by
    refine Balanced.congr (fun t ht => h.balanced t ?_) fun _ _ => World.counters_setBusy ..
    simp [two.subs, ht]
  balancedR := by
    refine Balanced.congr (fun t ht => h.balanced t ?_) fun _ _ => World.counters_setBusy ..
    simp [two.subs, ht]
  agree := by
    have here := (h.balanced s (mem_subs_self s)).1
    rw [two.tallies, h.own] at here
    simpa only [World.counters_setBusy] using here

/-- A call is over, and has done nothing more at the parts. -/
theorem closed (two : Binary s l r agree) (flanks : Flanks root s.node l r)
    (h : Standing root s.node l r c A w) (same : ∀ m, s.node ≠ m → w'.node m = w.node m)
    (idle : (w'.node s.node).busy = false) (own : w'.counters s.node = c') (sound : c'.Sound)
    (tallies : agree c' (w.counters l.node) (w.counters r.node)) : Accounts s c' w' := by
  have left (m : Nat) (hm : m ∈ l.ids) : w'.node m = w.node m := same m fun e => flanks.outL (e ▸ hm)
  have right (m : Nat) (hm : m ∈ r.ids) : w'.node m = w.node m := same m fun e => flanks.outR (e ▸ hm)
  refine ⟨fun m hm => ?_, fun t ht => ?_, own⟩
  · rcases two.mem_ids.mp hm with rfl | hm | hm
    · exact idle
    · rw [left m hm]; exact h.idleL m hm
    · rw [right m hm]; exact h.idleR m hm
  · simp only [two.subs, List.mem_cons, List.mem_append] at ht
    rcases ht with rfl | ht | ht
    · refine ⟨?_, own ▸ sound⟩
      rw [two.tallies, own, World.counters, World.counters, left _ (node_mem_ids l),
        right _ (node_mem_ids r)]
      exact tallies
    · exact h.balancedL.congr (fun m hm => congrArg Node.counters (left m hm)) t ht
    · exact h.balancedR.congr (fun m hm => congrArg Node.counters (right m hm)) t ht

end Relation.Binary

section Calls

variable {agree : Counters → Counters → Counters → Prop}

/-- A call of `solve` on a relation with two parts, in terms of its search. -/
theorem SolveCounts.of_binary (two : Binary s l r agree) (flanks : Flanks root s.node l r)
    (h : ∀ c, KeepsAccounts root s.node l r agree c (s.search call fuel)) :
    SolveCounts call fuel root s := by
  rintro c w ⟨under, accounts⟩
  have searched := h c _ (two.opened flanks under accounts)
  have sound : c.Sound := accounts.own ▸ accounts.balanced.sound
  rw [solve_eq_answering, answering_of_idle (accounts.idle _ (node_mem_ids s))]
  generalize s.search call fuel (w.setBusy s.node true) = result at searched
  cases result with
  | ok answer w' =>
    refine two.closed flanks searched (fun m => World.node_concluded_of_ne _ _ _)
      (World.busy_concluded ..) ?_ (sound.solved answer) searched.agree
    rw [World.counters_concluded, searched.own]
  | error why w' =>
    refine two.closed flanks searched (fun m => World.node_setBusy_of_ne _ _) ?_ ?_ sound searched.agree
    · simp [World.setBusy]
    · exact (World.counters_setBusy ..).trans searched.own

/-- A call of `reset` on a relation with two parts, in terms of its undoing. -/
theorem ResetCounts.of_binary (two : Binary s l r agree) (flanks : Flanks root s.node l r)
    {undo : Act κ σ Unit} (resets : s.reset = rewinding s undo)
    (h : ∀ c, undo.Meets (Standing root s.node l r c (agree c))
      (fun _ => Standing root s.node l r c (agree c.rewound)) fun _ => False) :
    ResetCounts σ root s := by
  rintro c w ⟨under, accounts⟩
  have undone := h c _ (two.opened flanks under accounts)
  have sound : c.Sound := accounts.own ▸ accounts.balanced.sound
  rw [resets, rewinding_of_idle (accounts.idle _ (node_mem_ids s))]
  generalize undo (w.setBusy s.node true) = result at undone
  cases result with
  | ok _ w' =>
    refine two.closed flanks undone (fun m => World.node_rewound_of_ne _ _) (World.busy_rewound ..) ?_
      sound undone.agree
    rw [World.counters_rewound, undone.own]
  | error why w' => exact undone

/-- A leaf that is at work leaves alone what the graph has counted, its own count included. -/
theorem SolveCounts.of_isLeaf (leaf : s.IsLeaf) (hs : s ∈ root.subs) (spares : call.SparesCounts root) :
    SolveCounts call fuel root s := by
  rintro c w ⟨under, accounts⟩
  have idle := accounts.idle _ (node_mem_ids s)
  have sound : c.Sound := accounts.own ▸ accounts.balanced.sound
  have keeps : Keeps (CountsWithin root []) (s.search call fuel) :=
    (CountsWithin.suits spares [] s.node).search leaf
  have kept := keeps (w.setBusy s.node true) (World.busy_setBusy under)
  have own : ((s.search call fuel).final (w.setBusy s.node true)).counters s.node = c := by
    rw [kept.2 _ (List.mem_map_of_mem hs) (List.not_mem_nil), World.counters_setBusy, accounts.own]
  unfold Act.final at own
  rw [solve_eq_answering, answering_of_idle idle]
  generalize s.search call fuel (w.setBusy s.node true) = result at own
  cases result with
  | ok answer w' =>
    refine .of_isLeaf leaf (World.busy_concluded ..) ?_ (sound.solved answer)
    rw [World.counters_concluded]
    exact congrArg (Counters.solved · answer) own
  | error why w' =>
    refine .of_isLeaf leaf ?_ ((World.counters_setBusy ..).trans own) sound
    simp [World.setBusy]

theorem ResetCounts.of_isLeaf (leaf : s.IsLeaf) (hs : s ∈ root.subs) : ResetCounts σ root s := by
  rintro c w ⟨under, accounts⟩
  have idle := accounts.idle _ (node_mem_ids s)
  have sound : c.Sound := accounts.own ▸ accounts.balanced.sound
  obtain ⟨w', ran⟩ := retract_ok s (w.setBusy s.node true)
  -- no callback runs, so that any caller will do
  have spares : Caller.SparesCounts (fun _ _ => pure default : Caller κ σ) root :=
    fun _ _ w _ => ⟨SameBusy.steady.refl w, fun _ _ => rfl⟩
  have kept := (CountsWithin.suits spares [] s.node).retract.of_ok ran (World.busy_setBusy under)
  rw [reset_of_isLeaf leaf, rewinding_of_idle idle, ran]
  refine .of_isLeaf leaf (World.busy_rewound ..) ?_ sound
  rw [World.counters_rewound, kept.2 _ (List.mem_map_of_mem hs) (List.not_mem_nil),
    World.counters_setBusy, accounts.own]

end Calls

/-- The parts of a relation in a graph that is a tree. -/
theorem Flanks.of_nodup {agree : Counters → Counters → Counters → Prop} (two : Binary s l r agree)
    (hs : s ∈ root.subs) (tree : s.ids.Nodup) :
    Flanks root s.node l r ∧ l.ids.Nodup ∧ r.ids.Nodup := by
  have split : s.ids = s.node :: (l.ids ++ r.ids) := by simp [ids, two.subs]
  rw [split, List.nodup_cons, List.mem_append, not_or, List.nodup_append] at tree
  obtain ⟨⟨outL, outR⟩, nodupL, nodupR, apart⟩ := tree
  have left : l ∈ s.subs := by simp [two.subs, mem_subs_self]
  have right : r ∈ s.subs := by simp [two.subs, mem_subs_self]
  exact ⟨⟨List.mem_map_of_mem hs, mem_subs_trans left hs, mem_subs_trans right hs, outL, outR,
    fun m hl hr => apart m hl m hr rfl⟩, nodupL, nodupR⟩

/-- **What a call counts in a tree**, at its relation and below. -/
theorem calls_count (spares : call.SparesCounts root) (fuel : Nat) (hs : s ∈ root.subs) (tree : s.ids.Nodup) :
    SolveCounts call fuel root s ∧ ResetCounts σ root s := by
  induction s with
  | and n l r ihl ihr =>
    obtain ⟨flanks, nodupL, nodupR⟩ := Flanks.of_nodup (binary_and n l r) hs tree
    obtain ⟨solveL, resetL⟩ := ihl flanks.left nodupL
    obtain ⟨solveR, resetR⟩ := ihr flanks.right nodupR
    refine ⟨.of_binary (binary_and n l r) flanks fun c =>
      keepsAccounts_advanceAnd flanks spares solveL solveR resetR, ?_⟩
    refine .of_binary (binary_and n l r) flanks rfl fun c => ?_
    exact .bind (Standing.reset_right (B := fun a b => c.rewound.Conjoins a.rewound b) flanks resetR
      fun a b agree => agree.rewound) fun _ => Standing.reset_left flanks resetL fun a b agree => agree
  | or n l r ihl ihr =>
    obtain ⟨flanks, nodupL, nodupR⟩ := Flanks.of_nodup (binary_or n l r) hs tree
    obtain ⟨solveL, resetL⟩ := ihl flanks.left nodupL
    obtain ⟨solveR, resetR⟩ := ihr flanks.right nodupR
    refine ⟨.of_binary (binary_or n l r) flanks fun c =>
      keepsAccounts_advanceOr flanks spares solveL solveR resetL, ?_⟩
    refine .of_binary (binary_or n l r) flanks rfl fun c => ?_
    exact .bind (Standing.reset_left (B := fun a b => c.rewound.Disjoins a b.rewound) flanks resetL
      fun a b agree => agree.rewound) fun _ => Standing.reset_right flanks resetR fun a b agree => agree
  | domain | convert | compare | predicate | always | never =>
    exact ⟨.of_isLeaf rfl hs spares, .of_isLeaf rfl hs⟩

/-! ## Runs -/

/-- The worlds that a relation comes to when nothing of it but the root is called.  At first none of its
nodes has counted anything.  Between two calls anything may happen elsewhere. -/
inductive CalledAtRoot (call : Caller κ σ) (root : Relation κ) : World κ σ → Prop
  | built {w : World κ σ} (idle : root.Idle w) (unused : ∀ m ∈ root.ids, w.counters m = {}) :
    CalledAtRoot call root w
  | solve {w : World κ σ} (fuel : Nat) (past : CalledAtRoot call root w) :
    CalledAtRoot call root ((root.solve call fuel).final w)
  | reset {w : World κ σ} (past : CalledAtRoot call root w) :
    CalledAtRoot call root ((root.reset : Act κ σ Unit).final w)
  | meanwhile {w w' : World κ σ} (past : CalledAtRoot call root w)
    (busy : ∀ m ∈ root.ids, (w'.node m).busy = (w.node m).busy)
    (counts : ∀ m ∈ root.ids, w'.counters m = w.counters m) : CalledAtRoot call root w'

namespace Relation

/-- In a new world the counts agree. -/
theorem Balanced.blank (r : Relation κ) (client : σ) : r.Balanced ({ client } : World κ σ) := by
  intro s _
  rw [World.counters_blank]
  refine ⟨?_, Nat.le_refl 0⟩
  cases s with
  | and n l r => simp only [Tallies, World.counters_blank]; exact ⟨rfl, rfl, rfl⟩
  | or n l r => simp only [Tallies, World.counters_blank]; exact ⟨rfl, rfl, rfl⟩
  | domain | convert | compare | predicate | always | never => trivial

/-- Where nothing has been counted, it is as in a new world. -/
theorem Balanced.of_unused (unused : ∀ m ∈ r.ids, w.counters m = {}) : r.Balanced w :=
  (Balanced.blank r w.client).congr fun m hm =>
    (unused m hm).trans (World.counters_blank w.client m).symm

end Relation

/-- Between two calls of the root its accounts are in order. -/
theorem CalledAtRoot.accounts (spares : call.SparesCounts root) (tree : root.ids.Nodup)
    (run : CalledAtRoot call root w) : Accounts root (w.counters root.node) w := by
  induction run with
  | built idle unused => exact ⟨idle, .of_unused unused, rfl⟩
  | @solve w fuel past ih =>
    have counted := (calls_count spares fuel (mem_subs_self root) tree).1 _ w ⟨.inr rfl, ih⟩
    unfold Act.final
    generalize root.solve call fuel w = result at counted
    cases result <;> exact ⟨counted.idle, counted.balanced, rfl⟩
  | @reset w past ih =>
    have counted := (calls_count spares 0 (mem_subs_self root) tree).2 _ w ⟨.inr rfl, ih⟩
    unfold Act.final
    generalize (root.reset : Act κ σ Unit) w = result at counted
    cases result with
    | ok _ w' => exact ⟨counted.idle, counted.balanced, rfl⟩
    | error why w' => exact counted.elim
  | meanwhile past busy counts ih =>
    exact ⟨fun m hm => (busy m hm).trans (ih.idle m hm), ih.balanced.congr counts, rfl⟩

namespace Relation

/-- **The counters of a tree are conserved.**  Whatever calls of its root were made and however they ended,
the counts of every conjunction and disjunction agree with those of its parts, and no node counts more
answers `true` than answers.  The root itself counts a call of `solve` by what it answers, and does not count
one that is interrupted; a call of `reset` always comes back and is counted. -/
theorem counters_conserved (spares : call.SparesCounts root) (tree : root.ids.Nodup)
    (run : CalledAtRoot call root w) :
    (∀ s ∈ root.subs, s.Tallies w ∧ (w.counters s.node).Sound) ∧
    (∀ fuel : Nat, match root.solve call fuel w with
      | .ok answer w' => w'.counters root.node = (w.counters root.node).solved answer
      | .error _ w' => w'.counters root.node = w.counters root.node) ∧
    ∃ w', root.reset w = .ok ⟨⟩ w' ∧ w'.counters root.node = (w.counters root.node).rewound := by
  have accounts := run.accounts spares tree
  refine ⟨accounts.balanced, fun fuel => ?_, ?_⟩
  · have counted := (calls_count spares fuel (mem_subs_self root) tree).1 _ w ⟨.inr rfl, accounts⟩
    generalize root.solve call fuel w = result at counted ⊢
    cases result <;> exact counted.own
  · have counted := (calls_count spares 0 (mem_subs_self root) tree).2 _ w ⟨.inr rfl, accounts⟩
    generalize root.reset w = result at counted ⊢
    cases result with
    | ok _ w' => exact ⟨w', rfl, counted.own⟩
    | error why w' => exact counted.elim

/-- A conjunction finds its one solution, is exhausted and is reset; its test solves it every time, in vain.
The right side was asked three times and held once, so that it was rewound twice besides the reset. -/
theorem counters_of_a_retried_test :
    let x : Var := ⟨0, "X"⟩
    let test : Relation Unit := .predicate 2 [x] ()
    let root : Relation Unit := .and 0 (.domain 1 x [.bool false, .bool true]) test
    let call : Caller Unit Unit := fun _ args => do
      let _ ← (root.solve (fun _ _ => return .unit) 0).attempt
      return args.headD .unit
    let w := (root.reset : Act Unit Unit Unit).final
      ((root.solve call 3).final ((root.solve call 3).final { client := () }))
    call.SparesCounts root ∧ root.ids.Nodup ∧ CalledAtRoot call root w ∧
      (∀ s ∈ root.subs, s.Tallies w ∧ (w.counters s.node).Sound) ∧
      w.counters root.node = ⟨2, 1, 1⟩ ∧ w.counters test.node = ⟨3, 1, 3⟩ := by
  intro x test root call w
  have spares : call.SparesCounts root := by
    intro k args w busy
    have refused : (root.solve (fun _ _ => return .unit) 0).attempt w =
        .ok (.error (.reentrant (w.node root.node).label)) w := by
      rw [solve_eq_answering, Act.attempt, answering_of_busy busy]
    have kept : (call k args).final w = w := by
      simp only [call, Act.final, bind_apply, refused, pure_apply]
    rw [kept]
    exact ⟨SameBusy.steady.refl w, fun _ _ => rfl⟩
  have tree : root.ids.Nodup := by decide
  have run : CalledAtRoot call root w :=
    .reset (.solve 3 (.solve 3 (.built (Ready.blank root ()).idle fun m _ => World.counters_blank () m)))
  exact ⟨spares, tree, run, (counters_conserved spares tree run).1, by decide +kernel, by decide +kernel⟩

end Relation
end RelationSearch
