import RelationSearch.Proofs.Quiet

/-! # Calls under way

While a relation is searched, calls of `solve` are under way on a chain of nodes, from the relation that
was called first down to the leaf that runs a callback.  `Relation.solveUnder` is `Relation.solve`
with that chain in hand: callbacks may depend on it, and if they do not it is the same computation
(`Relation.solveUnder_const`).

Two searches *concur* (`Concurs`) if from related worlds they come to the same end, in related worlds.
A search is confined to its `Territory`: what it binds, where it leaves watches, what it looks at, and its
nodes.  If the worlds share that, which may depend on the chain (`Shares`), then the search concurs
with itself, and with another one whose callbacks concur with its own (`Shares.solve`).  One
induction over the programs serves for worlds that differ in what no search reads (`Commons`) or in
what this one does not come to, for callbacks that differ in worlds that no search comes to, and for
what interrupts a search.
-/
namespace RelationSearch

open Act RelationSearch.Relation

variable {κ σ α β : Type}

/-! ## Searches with their chain -/

namespace Relation

/-- Solves a relation while calls on the nodes of `chain` are under way, the latest first. -/
def solveUnder (call : List Nat → Caller κ σ) (fuel : Nat) (chain : List Nat) :
    Relation κ → Act κ σ Bool
  | .domain n x values => answering (.domain n x values) (advanceDomain (call (n :: chain)) n x values)
  | .convert n x y f =>
    answering (.convert n x y f) (advanceConvert (call (n :: chain)) (.convert n x y f) n x y f)
  | .compare n x y c => answering (.compare n x y c) (advanceCompare (call (n :: chain)) n x y c)
  | .predicate n xs f =>
    answering (.predicate n xs f) (advancePredicate (call (n :: chain)) (.predicate n xs f) n xs f)
  | .and n l r =>
    answering (.and n l r) (advanceAnd fuel n (l.solveUnder call fuel (n :: chain))
      (r.solveUnder call fuel (n :: chain)) r.reset)
  | .or n l r =>
    answering (.or n l r) (advanceOr n (l.solveUnder call fuel (n :: chain))
      (r.solveUnder call fuel (n :: chain)) l.reset)
  | .always n => answering (.always n) (advanceAlways n)
  | .never n => answering (.never n) (return false)

/-- Where callbacks do not depend on the chain, it makes no difference. -/
theorem solveUnder_const (call : Caller κ σ) (fuel : Nat) (chain : List Nat) (r : Relation κ) :
    r.solveUnder (fun _ => call) fuel chain = r.solve call fuel := by
  induction r generalizing chain with
  | and n l r ihl ihr | or n l r ihl ihr => rw [solveUnder, ihl, ihr, solve]
  | domain | convert | compare | predicate | always | never => rfl

end Relation

/-! ## Concurring computations -/

section Concurs

/-- The computations came to the same end: they answered the same, or met the same interrupt, which is of
the kind `E`.  The worlds they left are in the relation `R`. -/
inductive Concur (E : Interrupt → Prop) (R : World κ σ → World κ σ → Prop) :
    EStateM.Result Interrupt (World κ σ) α → EStateM.Result Interrupt (World κ σ) α → Prop
  | ok {a : α} {w v : World κ σ} (worlds : R w v) : Concur E R (.ok a w) (.ok a v)
  | error {why : Interrupt} {w v : World κ σ} (kind : E why) (worlds : R w v) :
    Concur E R (.error why w) (.error why v)

theorem Concur.final {E : Interrupt → Prop} {R : World κ σ → World κ σ → Prop} {act act' : Act κ σ α}
    {w v : World κ σ} (h : Concur E R (act w) (act' v)) : R (act.final w) (act'.final v) := by
  unfold Act.final
  generalize act w = result, act' v = result' at h
  cases h <;> assumption

/-- From related worlds the computations come to the same end. -/
def Concurs (E : Interrupt → Prop) (R : World κ σ → World κ σ → Prop) (act act' : Act κ σ α) : Prop :=
  ∀ w v, R w v → Concur E R (act w) (act' v)

namespace Concurs

variable {E : Interrupt → Prop} {R : World κ σ → World κ σ → Prop}

theorem pure (a : α) : Concurs E R (Pure.pure a : Act κ σ α) (Pure.pure a) := fun _ _ => .ok

theorem throw {why : Interrupt} (kind : E why) :
    Concurs E R (MonadExcept.throw why : Act κ σ α) (MonadExcept.throw why) :=
  fun _ _ => .error kind

theorem bind {act act' : Act κ σ α} {next next' : α → Act κ σ β} (h : Concurs E R act act')
    (hn : ∀ a, Concurs E R (next a) (next' a)) : Concurs E R (act >>= next) (act' >>= next') := by
  intro w v hw
  have first := h w v hw
  rw [bind_apply, bind_apply]
  generalize act w = result, act' v = result' at first
  cases first with
  | ok worlds => exact hn _ _ _ worlds
  | error kind worlds => exact .error kind worlds

theorem get_bind {next next' : World κ σ → Act κ σ β}
    (hn : ∀ w v, R w v → Concurs E R (next w) (next' v)) :
    Concurs E R (get >>= next) (get >>= next') :=
  fun w v hw => hn w v hw w v hw

theorem modify {f g : World κ σ → World κ σ} (h : ∀ w v, R w v → R (f w) (g v)) :
    Concurs E R (modify f : Act κ σ PUnit) (modify g) :=
  fun w v hw => .ok (h w v hw)

theorem ite {test test' : Act κ σ Bool} {yes no yes' no' : Act κ σ β} (h : Concurs E R test test')
    (hy : Concurs E R yes yes') (hn : Concurs E R no no') :
    Concurs E R (do if ← test then yes else no) (do if ← test' then yes' else no') :=
  h.bind fun a => by cases a <;> assumption

/-- Once it has become an answer, an interrupt may be of any kind. -/
theorem attempt {E' : Interrupt → Prop} {act act' : Act κ σ α} (h : Concurs E R act act') :
    Concurs E' R (Act.attempt act) (Act.attempt act') := by
  intro w v hw
  have ended := h w v hw
  unfold Act.attempt
  generalize act w = result, act' v = result' at ended
  cases ended with
  | ok worlds => exact .ok worlds
  | error _ worlds => exact .ok worlds

theorem mono {E' : Interrupt → Prop} {act act' : Act κ σ α} (h : Concurs E R act act')
    (le : ∀ why, E why → E' why) : Concurs E' R act act' := by
  intro w v hw
  have ended := h w v hw
  generalize act w = result, act' v = result' at ended ⊢
  cases ended with
  | ok worlds => exact .ok worlds
  | error kind worlds => exact .error (le _ kind) worlds

end Concurs

end Concurs

/-! ## What a search touches -/

/-- What a search is confined to. -/
structure Territory where
  /-- The variables that it binds and unbinds. -/
  binds : Var → Prop
  /-- The variables at which it leaves watches and takes them away. -/
  guards : Var → Prop
  /-- The variables that it looks at. -/
  reads : Var → Prop
  /-- The variables whose values decide whether a watch lets a value through. -/
  asks : Var → Prop
  /-- The nodes that it is made of. -/
  nodes : Nat → Prop
  /-- Those of its nodes that note the watches they left. -/
  notes : Nat → Prop

/-- Every variable and every node. -/
def Territory.whole : Territory where
  binds _ := True
  guards _ := True
  reads _ := True
  asks _ := True
  nodes _ := True
  notes _ := True

/-- What the relation does to its own variables and its own node is within the territory. -/
structure Territory.Holds (T : Territory) (s : Relation κ) : Prop where
  node : T.nodes s.node
  binds : ∀ x ∈ s.targets, T.binds x
  guards : ∀ x ∈ s.compared, T.guards x
  reads : ∀ x ∈ s.operands, T.reads x
  asks : ∀ x ∈ s.compared, T.asks x
  notes : s.compared ≠ [] → T.notes s.node

theorem Territory.whole_holds (s : Relation κ) : Territory.whole.Holds s :=
  ⟨trivial, fun _ _ => trivial, fun _ _ => trivial, fun _ _ => trivial, fun _ _ => trivial,
    fun _ => trivial⟩

section Parts

variable {T : Territory} {n : Nat} {l r : Relation κ}

theorem Territory.holds_and (h : ∀ t ∈ (Relation.and n l r).subs, T.Holds t) :
    T.Holds (.and n l r) ∧ (∀ t ∈ l.subs, T.Holds t) ∧ ∀ t ∈ r.subs, T.Holds t :=
  ⟨h _ (mem_subs_self _), fun t ht => h t (mem_subs_trans ht left_sub_and),
    fun t ht => h t (mem_subs_trans ht right_sub_and)⟩

theorem Territory.holds_or (h : ∀ t ∈ (Relation.or n l r).subs, T.Holds t) :
    T.Holds (.or n l r) ∧ (∀ t ∈ l.subs, T.Holds t) ∧ ∀ t ∈ r.subs, T.Holds t :=
  ⟨h _ (mem_subs_self _), fun t ht => h t (mem_subs_trans ht left_sub_or),
    fun t ht => h t (mem_subs_trans ht right_sub_or)⟩

end Parts

/-- Worlds in the relation `R chain` look the same to a search of the territory that is under way on
`chain`, and go on to do so whatever the search does to both.  Where not every interrupt is of the kind
`E`, only nodes on the chain are busy. -/
structure Shares (E : Interrupt → Prop) (T : Territory)
    (R : List Nat → World κ σ → World κ σ → Prop) : Prop where
  cell : ∀ {c w v}, R c w v → ∀ x, T.reads x → v.cell x = w.cell x
  value : ∀ {c w v}, R c w v → ∀ x, T.asks x → v.value x = w.value x
  asked : ∀ {c w v}, R c w v → ∀ x, T.binds x → ∀ watch ∈ (w.cell x).watches, T.asks watch.other
  node : ∀ {c w v}, R c w v → ∀ n, T.nodes n → v.node n = w.node n
  noted : ∀ {c w v}, R c w v → ∀ n, T.notes n → ∀ entries, (w.node n).progress = .fired entries →
    ∀ entry ∈ entries, T.guards entry.1
  rebind : ∀ {c w v}, R c w v → ∀ x, T.binds x → ∀ f, Cell.KeepsWatches f →
    R c (w.modifyCell x f) (v.modifyCell x f)
  rewatch : ∀ {c w v}, R c w v → ∀ x, T.guards x → ∀ f, Cell.KeepsBinding f →
    (∀ cell, ∀ watch ∈ (f cell).watches, watch ∈ cell.watches ∨ T.asks watch.other) →
    R c (w.modifyCell x f) (v.modifyCell x f)
  modifyNode : ∀ {c w v}, R c w v → ∀ n, T.nodes n → ∀ f,
    (∀ node : Node, (f node).busy = node.busy) →
    (∀ node entries, (f node).progress = .fired entries →
      node.progress = .fired entries ∨ ∀ entry ∈ entries, T.guards entry.1) →
    R c (w.modifyNode n f) (v.modifyNode n f)
  record : ∀ {c w v}, R c w v → ∀ event, R c (w.record event) (v.record event)
  enter : ∀ {c w v}, R c w v → ∀ n, T.nodes n → (w.node n).busy = false →
    R (n :: c) (w.setBusy n true) (v.setBusy n true)
  leave : ∀ {c w₀ v₀ w v}, R c w₀ v₀ → ∀ n, T.nodes n → (w₀.node n).busy = false →
    R (n :: c) w v → R c (w.setBusy n false) (v.setBusy n false)
  unbound : ∀ x r, E (.unbound x r)
  outOfFuel : E .outOfFuel
  onChain : (∀ why, E why) ∨ ∀ {c w v n}, R c w v → (w.node n).busy = true → n ∈ c

/-- Either every interrupt will do, or none of the relation's nodes is on the chain. -/
def Commons.Clear (E : Interrupt → Prop) (chain : List Nat) (r : Relation κ) : Prop :=
  (∀ why, E why) ∨ (r.Coherent ∧ ∀ m ∈ r.ids, m ∉ chain)

theorem Commons.Clear.part {E : Interrupt → Prop} {c : List Nat} {r s : Relation κ}
    (clear : Clear E c r) (hs : s ∈ r.parts) : Clear E (r.node :: c) s := by
  refine clear.imp_right fun ⟨coherent, free⟩ => ?_
  have sub := mem_subs_of_mem_parts hs
  refine ⟨coherent.mono sub, fun m hm onChain => ?_⟩
  rcases List.mem_cons.mp onChain with rfl | onChain
  · exact coherent.node_not_mem hs hm
  · exact free m (mem_ids_of_mem_subs sub hm) onChain

namespace Shares

variable {E : Interrupt → Prop} {T : Territory} {R : List Nat → World κ σ → World κ σ → Prop}
variable {c : List Nat} {n : Nat} {x y : Var} {fuel : Nat}

section Primitives

variable (h : Shares E T R)
include h

theorem value_of_asks (hx : T.asks x) : Concurs E (R c) (Act.value x) (Act.value x) := by
  intro w v hw
  rw [value_apply, value_apply, h.value hw x hx]
  exact .ok hw

theorem value_of_reads (hx : T.reads x) : Concurs E (R c) (Act.value x) (Act.value x) := by
  intro w v hw
  rw [value_apply, value_apply, World.value, World.value, h.cell hw x hx]
  exact .ok hw

/-- Where a node pauses, with what is known of the watches that it noted. -/
theorem progress_bind (hn : T.nodes n) (notes : T.notes n) {next next' : Progress → Act κ σ α}
    (hnext : ∀ p, (∀ entries, p = .fired entries → ∀ entry ∈ entries, T.guards entry.1) →
      Concurs E (R c) (next p) (next' p)) :
    Concurs E (R c) (Act.progress n >>= next) (Act.progress n >>= next') := by
  intro w v hw
  rw [bind_apply, bind_apply, progress_apply, progress_apply, h.node hw n hn]
  exact hnext _ (h.noted hw n notes) _ _ hw

theorem progress (hn : T.nodes n) {next next' : Progress → Act κ σ α}
    (hnext : ∀ p, Concurs E (R c) (next p) (next' p)) :
    Concurs E (R c) (Act.progress n >>= next) (Act.progress n >>= next') := by
  intro w v hw
  rw [bind_apply, bind_apply, progress_apply, progress_apply, h.node hw n hn]
  exact hnext _ _ _ hw

theorem note (hn : T.nodes n) {p : Progress}
    (hp : ∀ entries, p = .fired entries → ∀ entry ∈ entries, T.guards entry.1) :
    Concurs E (R c) (Act.setProgress n p) (Act.setProgress n p) :=
  .modify fun _ _ hw => h.modifyNode hw n hn _ (fun _ => rfl) fun _ entries fired =>
    .inr (hp entries fired)

/-- A node notes where it pauses, and no watches. -/
theorem setProgress (hn : T.nodes n) (p : Progress)
    (plain : ∀ entries, p = .fired entries → entries = []) :
    Concurs E (R c) (Act.setProgress n p) (Act.setProgress n p) :=
  h.note hn fun entries fired => by rw [plain entries fired]; exact nofun

theorem unbind (hx : T.binds x) : Concurs E (R c) x.unbind x.unbind :=
  .modify fun _ _ hw => h.rebind hw x hx _ Cell.keepsWatches_clear

theorem addWatch (hx : T.guards x) (seen : T.reads x) {other : Var} (asks : T.asks other)
    (comparison : Comparison κ) (onLeft : Bool) :
    Concurs E (R c) (x.addWatch other comparison onLeft) (x.addWatch other comparison onLeft) := by
  refine .get_bind fun w v hw => ?_
  rw [h.cell hw x seen]
  refine (Concurs.modify fun _ _ hw => h.rewatch hw x hx (·.addWatch other comparison onLeft)
    (fun _ => ⟨rfl, rfl⟩) fun cell watch hwatch => ?_).bind fun _ => .pure _
  rcases List.mem_append.mp hwatch with old | new
  · exact .inl old
  · rw [List.mem_singleton.mp new]
    exact .inr asks

theorem dropWatches (entries : List (Var × Nat)) (own : ∀ entry ∈ entries, T.guards entry.1) :
    Concurs E (R c) (dropWatches entries) (dropWatches entries) := by
  induction entries with
  | nil => exact .pure _
  | cons entry rest ih =>
    obtain ⟨here, below⟩ := List.forall_mem_cons.mp own
    exact (Concurs.modify fun _ _ hw => h.rewatch hw entry.1 here (·.dropWatch entry.2)
      (fun _ => ⟨rfl, rfl⟩) fun _ _ kept => .inl (List.mem_of_mem_filter kept)).bind fun _ => ih below

/-- A comparison sees to one of its operands, and goes on with what it has to note. -/
theorem deferOperand_bind (held : Option Value) (hx : T.guards x) (seen : T.reads x) {other : Var}
    (asks : T.asks other) (comparison : Comparison κ) (onLeft : Bool)
    {next next' : List (Var × Nat) → Act κ σ α}
    (hnext : ∀ entries, (∀ entry ∈ entries, T.guards entry.1) →
      Concurs E (R c) (next entries) (next' entries)) :
    Concurs E (R c) (deferOperand held x other comparison onLeft >>= next)
      (deferOperand held x other comparison onLeft >>= next') := by
  cases held with
  | some v => exact hnext [] nofun
  | none =>
    simp only [deferOperand, bind_assoc, pure_bind]
    refine (h.addWatch hx seen asks comparison onLeft).bind fun id => hnext _ fun entry hentry => ?_
    rwa [List.mem_singleton.mp hentry]

theorem releaseTarget (hn : T.nodes n) (hy : T.binds y) :
    Concurs E (R c) (releaseTarget n y) (releaseTarget n y) := by
  refine h.progress hn fun p => ?_
  split
  · exact (h.unbind hy).bind fun _ => h.setProgress hn (.applied _ false) nofun
  · exact .pure _

theorem advanceAlways (hn : T.nodes n) : Concurs E (R c) (advanceAlways n) (advanceAlways n) := by
  refine h.progress hn fun p => ?_
  split
  · exact .pure _
  · exact (h.setProgress hn (.fired []) fun _ e => (Progress.fired.inj e).symm).bind fun _ => .pure _

theorem retract {s : Relation κ} (here : T.Holds s) :
    Concurs E (R c) (retract s) (retract s) := by
  cases s with
  | domain n x values =>
    refine h.progress here.node fun p => ?_
    split
    · exact h.unbind (here.binds x (List.mem_singleton_self x))
    · exact .pure _
  | convert n x y f => exact h.releaseTarget here.node (here.binds y (List.mem_singleton_self y))
  | compare n x y comparison =>
    refine h.progress_bind here.node (here.notes nofun) fun p own => ?_
    split
    · exact h.dropWatches _ (own _ rfl)
    · exact .pure _
  | and | or | predicate | always | never => exact .pure _

end Primitives

/-! ## Leaves -/

section Leaves

variable (h : Shares E T R) {call call' : Caller κ σ}
variable (callback : ∀ k args, Concurs E (R c) (call k args) (call' k args))
include h callback

omit h in
theorem holds (k : κ) (args : List Value) :
    Concurs E (R c) (call.holds k args) (call'.holds k args) :=
  (callback k args).bind fun _ => .pure _

omit h in
theorem comparison (comparison : Comparison κ) (u v : Value) :
    Concurs E (R c) (comparison.holds call u v) (comparison.holds call' u v) := by
  cases comparison with
  | equality => exact .pure _
  | custom k => exact holds callback k [u, v]

theorem acceptedBy (v : Value) (watches : List (Watch κ))
    (asked : ∀ watch ∈ watches, T.asks watch.other) :
    Concurs E (R c) (acceptedBy call v watches) (acceptedBy call' v watches) := by
  induction watches with
  | nil => exact .pure _
  | cons watch rest ih =>
    obtain ⟨here, below⟩ := List.forall_mem_cons.mp asked
    refine .ite ((h.value_of_asks here).bind fun held => ?_) (ih below) (.pure _)
    cases held with
    | none => exact .pure _
    | some held =>
      dsimp only
      split <;> exact comparison callback _ _ _

theorem bind (hx : T.binds x) (seen : T.reads x) (v : Value) :
    Concurs E (R c) (x.bind call v) (x.bind call' v) := by
  refine .get_bind fun w w' hw => ?_
  rw [h.cell hw x seen]
  refine .ite (h.acceptedBy callback v _ (h.asked hw x hx)) ?_ ?_
  · exact (Concurs.modify fun _ _ hw => h.rebind hw x hx _ (Cell.keepsWatches_put v)).bind
      fun _ => .pure _
  · exact (Concurs.modify fun _ _ hw => h.record hw _).bind fun _ => .pure _

theorem offer (hn : T.nodes n) (hx : T.binds x) (seen : T.reads x) (values : List Value) :
    Concurs E (R c) (offer call n x values) (offer call' n x values) := by
  induction values with
  | nil => exact (h.setProgress hn (.binding []) nofun).bind fun _ => (h.unbind hx).bind fun _ => .pure _
  | cons v rest ih =>
    exact (h.setProgress hn (.binding rest) nofun).bind fun _ =>
      .ite (h.bind callback hx seen v) (.pure _) ih

theorem advanceDomain {values : List Value} (here : T.Holds (.domain n x values : Relation κ)) :
    Concurs E (R c) (advanceDomain call n x values) (advanceDomain call' n x values) := by
  have hn : T.nodes n := here.node
  have hx := here.binds x (List.mem_singleton_self x)
  have seen := here.reads x (List.mem_singleton_self x)
  refine h.progress hn fun p => ?_
  split
  · refine (h.value_of_reads seen).bind fun held => ?_
    split
    · exact (h.setProgress hn .checked nofun).bind fun _ => .pure _
    · exact h.offer callback hn hx seen values
  · exact h.offer callback hn hx seen _
  · exact .pure _

theorem applyConversion {f : κ} (here : T.Holds (.convert n x y f)) (v : Value) (generation : Nat)
    (owns : Bool) :
    Concurs E (R c) (applyConversion call n y f v generation owns)
      (applyConversion call' n y f v generation owns) := by
  have hn : T.nodes n := here.node
  have hy := here.binds y (List.mem_singleton_self y)
  have seen := here.reads y (by simp [operands])
  refine (h.setProgress hn (.applied generation owns) nofun).bind fun _ =>
    (callback f [v]).bind fun result => (h.value_of_reads seen).bind fun held => ?_
  split
  · exact .pure _
  · refine .ite (h.bind callback hy seen result) ?_ ?_
    · exact (h.setProgress hn (.applied generation true) nofun).bind fun _ => .pure _
    · exact (h.releaseTarget hn hy).bind fun _ => .pure _

theorem advanceConvert {f : κ} (here : T.Holds (.convert n x y f)) (r : Relation κ) :
    Concurs E (R c) (advanceConvert call r n x y f) (advanceConvert call' r n x y f) := by
  have hn : T.nodes n := here.node
  refine .get_bind fun w w' hw => ?_
  dsimp only
  rw [h.cell hw x (here.reads x (by simp [operands]))]
  split
  · exact .throw (h.unbound _ _)
  · refine h.progress hn fun p => ?_
    split
    · split
      · exact (h.releaseTarget hn (here.binds y (List.mem_singleton_self y))).bind fun _ => .pure _
      · exact h.applyConversion callback here _ _ _
    · exact h.applyConversion callback here _ _ _

theorem advanceCompare {compared : Comparison κ} (here : T.Holds (.compare n x y compared)) :
    Concurs E (R c) (advanceCompare call n x y compared) (advanceCompare call' n x y compared) := by
  have hn : T.nodes n := here.node
  have left : x ∈ (Relation.compare n x y compared).compared := List.mem_cons_self ..
  have right : y ∈ (Relation.compare n x y compared).compared := by simp [Relation.compared]
  refine h.progress_bind hn (here.notes nofun) fun p own => ?_
  split
  · exact (h.dropWatches _ (own _ rfl)).bind fun _ =>
      (h.setProgress hn (.fired []) fun _ e => (Progress.fired.inj e).symm).bind fun _ => .pure _
  · refine (h.setProgress hn (.fired []) fun _ e => (Progress.fired.inj e).symm).bind fun _ =>
      (h.value_of_reads (here.reads x left)).bind fun held =>
        (h.value_of_reads (here.reads y right)).bind fun held' => ?_
    split
    · exact comparison callback _ _ _
    · refine h.deferOperand_bind _ (here.guards x left) (here.reads x left) (here.asks y right) _ _
        fun onLeft hl => h.deferOperand_bind _ (here.guards y right) (here.reads y right)
          (here.asks x left) _ _ fun onRight hr => ?_
      refine (h.note hn ?_).bind fun _ => .pure _
      rintro _ ⟨⟩ entry hentry
      exact (List.mem_append.mp hentry).elim (hl entry) (hr entry)

theorem advancePredicate {xs : List Var} {test : κ} (here : T.Holds (.predicate n xs test))
    (r : Relation κ) :
    Concurs E (R c) (advancePredicate call r n xs test) (advancePredicate call' r n xs test) := by
  have hn : T.nodes n := here.node
  have valuesOf {w v : World κ σ} (hw : R c w v) : v.valuesOf xs = w.valuesOf xs := by
    have seen : ∀ x ∈ xs, T.reads x := here.reads
    clear here
    induction xs with
    | nil => rfl
    | cons x xs ih =>
      obtain ⟨hx, below⟩ := List.forall_mem_cons.mp seen
      simp only [World.valuesOf, World.value, h.cell hw x hx, ih below]
  refine h.progress hn fun p => ?_
  split
  · exact .pure _
  · refine .get_bind fun w v hw => ?_
    rw [valuesOf hw]
    split
    · exact .throw (h.unbound _ _)
    · exact (h.setProgress hn (.fired []) fun _ e => (Progress.fired.inj e).symm).bind fun _ =>
        holds callback test _

end Leaves

/-! ## Combinations -/

section Combinations

variable (h : Shares E T R) {left right left' right' : Act κ σ Bool} {rewind : Act κ σ Unit}
variable (hn : T.nodes n) (hl : Concurs E (R c) left left') (hr : Concurs E (R c) right right')
variable (hw : Concurs E (R c) rewind rewind)
include h hn hl hr hw

theorem conjoin (fuel : Nat) :
    Concurs E (R c) (conjoin n left right rewind fuel) (conjoin n left' right' rewind fuel) := by
  induction fuel with
  | zero => exact .throw h.outOfFuel
  | succ fuel ih =>
    refine .ite hl ?_ ((h.setProgress hn .exhausted nofun).bind fun _ => .pure _)
    exact (h.setProgress hn .retrying nofun).bind fun _ => .ite hr (.pure _) (hw.bind fun _ => ih)

theorem advanceAnd (fuel : Nat) :
    Concurs E (R c) (advanceAnd fuel n left right rewind)
      (advanceAnd fuel n left' right' rewind) := by
  have loop := h.conjoin hn hl hr hw fuel
  refine h.progress hn fun p => ?_
  split
  · exact .pure _
  · exact .ite hr (.pure _) (hw.bind fun _ => loop)
  · exact loop

theorem advanceOr :
    Concurs E (R c) (advanceOr n left right rewind) (advanceOr n left' right' rewind) := by
  have later : Concurs E (R c) (disjoinRight n right) (disjoinRight n right') :=
    .ite hr (.pure _) ((h.setProgress hn .exhausted nofun).bind fun _ => .pure _)
  refine h.progress hn fun p => ?_
  split
  · exact .pure _
  · exact later
  · exact .ite hl ((h.setProgress hn .inLeft nofun).bind fun _ => .pure _)
      (hw.bind fun _ => (h.setProgress hn .inRight nofun).bind fun _ => later)

end Combinations

/-! ## Calls -/

section Calls

variable (h : Shares E T R) {s : Relation κ}
include h

theorem kind_of_busy (clear : Commons.Clear E c s) {w v : World κ σ} (hw : R c w v)
    (busy : (w.node s.node).busy = true) (why : Interrupt) : E why := by
  rcases clear with all | ⟨-, free⟩
  · exact all why
  · rcases h.onChain with all | onChain
    · exact all why
    · exact absurd (onChain hw busy) (free _ (node_mem_ids s))

theorem concluded {w v : World κ σ} (hn : T.nodes s.node)
    (left : R c (w.setBusy s.node false) (v.setBusy s.node false))
    (answer : Bool) : R c (w.concluded s answer) (v.concluded s answer) := by
  unfold World.concluded
  refine h.record (h.modifyNode left _ hn _ ?_ ?_) _
  · exact fun _ => rfl
  · exact fun _ _ => .inl

theorem rewound {w v : World κ σ} (hn : T.nodes s.node)
    (left : R c ((w.noted s.node .fresh).setBusy s.node false)
      ((v.noted s.node .fresh).setBusy s.node false)) : R c (w.rewound s) (v.rewound s) := by
  unfold World.rewound
  refine h.record (h.modifyNode left _ hn _ ?_ ?_) _
  · exact fun _ => rfl
  · exact fun _ _ => .inl

theorem answering (hn : T.nodes s.node) (clear : Commons.Clear E c s) {search search' : Act κ σ Bool}
    (inner : Concurs E (R (s.node :: c)) search search') :
    Concurs E (R c) (answering s search) (answering s search') := by
  intro w v hw
  have same := h.node hw s.node hn
  cases busy : (w.node s.node).busy with
  | true =>
    rw [answering_of_busy busy, answering_of_busy (same ▸ busy), same]
    exact .error (h.kind_of_busy clear hw busy _) hw
  | false =>
    have ended := inner _ _ (h.enter hw s.node hn busy)
    rw [answering_of_idle busy, answering_of_idle (same ▸ busy)]
    generalize search (w.setBusy s.node true) = result, search' _ = result' at ended
    cases ended with
    | ok worlds => exact .ok (h.concluded hn (h.leave hw s.node hn busy worlds) _)
    | error kind worlds => exact .error kind (h.leave hw s.node hn busy worlds)

theorem rewinding (hn : T.nodes s.node) (clear : Commons.Clear E c s) {undo undo' : Act κ σ Unit}
    (inner : Concurs E (R (s.node :: c)) undo undo') :
    Concurs E (R c) (rewinding s undo) (rewinding s undo') := by
  intro w v hw
  have same := h.node hw s.node hn
  cases busy : (w.node s.node).busy with
  | true =>
    rw [rewinding_of_busy busy, rewinding_of_busy (same ▸ busy)]
    exact .error (h.kind_of_busy clear hw busy _) hw
  | false =>
    have ended := inner _ _ (h.enter hw s.node hn busy)
    rw [rewinding_of_idle busy, rewinding_of_idle (same ▸ busy)]
    generalize undo (w.setBusy s.node true) = result, undo' _ = result' at ended
    cases ended with
    | ok worlds =>
      have fresh := h.modifyNode worlds s.node hn (fun node => { node with progress := .fresh })
        (fun _ => rfl) fun _ _ => nofun
      exact .ok (h.rewound hn (h.leave hw s.node hn busy fresh))
    | error kind worlds => exact .error kind (h.leave hw s.node hn busy worlds)

theorem reset (within : ∀ t ∈ s.subs, T.Holds t) (clear : Commons.Clear E c s) :
    Concurs E (R c) s.reset s.reset := by
  induction s generalizing c with
  | and n l r ihl ihr =>
    obtain ⟨here, left, right⟩ := Territory.holds_and within
    exact h.rewinding here.node clear ((ihr right (clear.part right_part_and)).bind fun _ =>
      ihl left (clear.part left_part_and))
  | or n l r ihl ihr =>
    obtain ⟨here, left, right⟩ := Territory.holds_or within
    exact h.rewinding here.node clear ((ihl left (clear.part left_part_or)).bind fun _ =>
      ihr right (clear.part right_part_or))
  | domain | convert | compare | predicate | always | never =>
    have here := within _ (mem_subs_self _)
    exact h.rewinding here.node clear (h.retract here)

/-- **Searches concur if their callbacks do**, which may depend on the calls under way. -/
theorem solve {call call' : List Nat → Caller κ σ}
    (callback : ∀ c k args, Concurs E (R c) (call c k args) (call' c k args))
    (within : ∀ t ∈ s.subs, T.Holds t) (clear : Commons.Clear E c s) :
    Concurs E (R c) (s.solveUnder call fuel c) (s.solveUnder call' fuel c) := by
  induction s generalizing c with
  | and n l r ihl ihr =>
    obtain ⟨here, left, right⟩ := Territory.holds_and within
    have hr := clear.part right_part_and
    exact h.answering here.node clear (h.advanceAnd here.node (ihl left (clear.part left_part_and))
      (ihr right hr) (h.reset right hr) fuel)
  | or n l r ihl ihr =>
    obtain ⟨here, left, right⟩ := Territory.holds_or within
    have hl := clear.part left_part_or
    exact h.answering here.node clear (h.advanceOr here.node (ihl left hl)
      (ihr right (clear.part right_part_or)) (h.reset left hl))
  | domain n x values =>
    have here := within _ (mem_subs_self _)
    exact h.answering here.node clear (h.advanceDomain (callback _) here)
  | convert n x y f =>
    have here := within _ (mem_subs_self _)
    exact h.answering here.node clear (h.advanceConvert (callback _) here _)
  | compare n x y f =>
    have here := within _ (mem_subs_self _)
    exact h.answering here.node clear (h.advanceCompare (callback _) here)
  | predicate n xs f =>
    have here := within _ (mem_subs_self _)
    exact h.answering here.node clear (h.advancePredicate (callback _) here _)
  | always n =>
    have here := within _ (mem_subs_self _)
    exact h.answering here.node clear (h.advanceAlways here.node)
  | never n => exact h.answering (within _ (mem_subs_self _)).node clear (.pure false)

end Calls

end Shares

/-! ## What worlds have in common -/

/-- Worlds in the relation `R chain` look the same to a search that is under way on `chain`, and go on to
do so whatever the search does to both.  Where not every interrupt is of the kind `E`, only nodes on
the chain are busy. -/
structure Commons (E : Interrupt → Prop) (R : List Nat → World κ σ → World κ σ → Prop) : Prop where
  cell : ∀ {c w v}, R c w v → ∀ x, v.cell x = w.cell x
  node : ∀ {c w v}, R c w v → ∀ n, v.node n = w.node n
  modifyCell : ∀ {c w v}, R c w v → ∀ x f, R c (w.modifyCell x f) (v.modifyCell x f)
  modifyNode : ∀ {c w v}, R c w v → ∀ n f, (∀ node : Node, (f node).busy = node.busy) →
    R c (w.modifyNode n f) (v.modifyNode n f)
  record : ∀ {c w v}, R c w v → ∀ event, R c (w.record event) (v.record event)
  enter : ∀ {c w v}, R c w v → ∀ n, (w.node n).busy = false →
    R (n :: c) (w.setBusy n true) (v.setBusy n true)
  leave : ∀ {c w₀ v₀ w v}, R c w₀ v₀ → ∀ n, (w₀.node n).busy = false → R (n :: c) w v →
    R c (w.setBusy n false) (v.setBusy n false)
  unbound : ∀ x r, E (.unbound x r)
  outOfFuel : E .outOfFuel
  onChain : (∀ why, E why) ∨ ∀ {c w v n}, R c w v → (w.node n).busy = true → n ∈ c

namespace Commons

variable {E : Interrupt → Prop} {R : List Nat → World κ σ → World κ σ → Prop}

/-- What worlds have in common everywhere, they have in common for every search. -/
theorem shares (h : Commons E R) : Shares E .whole R where
  cell hw x _ := h.cell hw x
  value hw x _ := by rw [World.value, World.value, h.cell hw]
  asked _ _ _ _ _ := trivial
  node hw n _ := h.node hw n
  noted _ _ _ _ _ _ _ := trivial
  rebind hw x _ f _ := h.modifyCell hw x f
  rewatch hw x _ f _ _ := h.modifyCell hw x f
  modifyNode hw n _ f calm _ := h.modifyNode hw n f calm
  record hw event := h.record hw event
  enter hw n _ idle := h.enter hw n idle
  leave before n _ idle hw := h.leave before n idle hw
  unbound := h.unbound
  outOfFuel := h.outOfFuel
  onChain := h.onChain

variable (h : Commons E R) {c : List Nat} {fuel : Nat} {s : Relation κ}
include h

theorem bind {call call' : Caller κ σ}
    (callback : ∀ k args, Concurs E (R c) (call k args) (call' k args)) (x : Var) (v : Value) :
    Concurs E (R c) (x.bind call v) (x.bind call' v) :=
  h.shares.bind callback trivial trivial v

theorem reset (clear : Clear E c s) : Concurs E (R c) s.reset s.reset :=
  h.shares.reset (fun t _ => Territory.whole_holds t) clear

theorem solve {call call' : List Nat → Caller κ σ}
    (callback : ∀ c k args, Concurs E (R c) (call c k args) (call' c k args)) (clear : Clear E c s) :
    Concurs E (R c) (s.solveUnder call fuel c) (s.solveUnder call' fuel c) :=
  h.shares.solve callback (fun t _ => Territory.whole_holds t) clear

end Commons

end RelationSearch
