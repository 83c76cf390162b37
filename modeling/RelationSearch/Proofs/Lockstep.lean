import RelationSearch.Proofs.Copies

/-! # A graph and its copy keep step

Every call on a node of a graph and the same call on that node's copy come to the same end when they are
made in alike worlds, and leave alike worlds (`Twin.solve`, `Twin.reset`).  The proof follows the
programs: the primitives keep step, so does a leaf, and so does a combination whose parts do.

Callbacks are functions of their arguments.  No condition is laid on sharing.
-/
namespace RelationSearch

open Act RelationSearch.Relation

namespace Twin

variable {σ α β : Type} {T : Twin σ} {busy : Nat → Bool} {fuel n : Nat} {s : Relation Function}

/-! ## Primitives -/

theorem value (x : Var) : Relates Eq (T.Alike busy) (Act.value x) (Act.value x) :=
  fun _ _ alike => .ok (alike.value x).symm alike

theorem progress (hs : s ∈ T.root.subs) :
    Relates (T.Pauses s) (T.Alike busy) (Act.progress s.node) (Act.progress (T.number s.node)) :=
  fun _ _ alike => .ok (alike.pauses s hs) alike

theorem setProgress (hs : s ∈ T.root.subs) {p p' : Progress} (pauses : T.Pauses s p p') :
    Relates Eq (T.Alike busy) (Act.setProgress s.node p) (Act.setProgress (T.number s.node) p') :=
  .modify fun _ _ alike => alike.noted hs pauses

theorem record (event event' : World Function σ → Event) :
    Relates Eq (T.Alike busy) (Act.record event) (Act.record event') :=
  .modify fun _ _ alike => alike.record event event'

theorem unbind (x : Var) : Relates Eq (T.Alike busy) x.unbind x.unbind :=
  .modify fun _ _ alike => alike.modifyCell (alike.cell x).clear

theorem callback (f : Function) (args : List Value) :
    Relates Eq (T.Alike busy) (Function.call f args) (Function.call f args) := by
  unfold Function.call
  cases f args with
  | ok v => exact .pure rfl
  | error message => exact .throw _

theorem holds (f : Function) (args : List Value) :
    Relates Eq (T.Alike busy) (Caller.holds Function.call f args)
      (Caller.holds Function.call f args) :=
  (callback f args).bind fun _ _ same => .pure (congrArg _ same)

theorem comparison (c : Comparison Function) (u v : Value) :
    Relates Eq (T.Alike busy) (c.holds Function.call u v) (c.holds Function.call u v) := by
  cases c with
  | equality => exact .pure rfl
  | custom f => exact holds f [u, v]

/-- Watches with the same duty let the same values through. -/
theorem accepts {i j : Nat} {u u' : Watch Function} (alike : u.Alike i j u') (v : Value) :
    Relates Eq (T.Alike busy) (u.accepts Function.call v) (u'.accepts Function.call v) := by
  obtain ⟨id, other, comparison', onLeft⟩ := u
  obtain ⟨id', other', comparison'', onLeft'⟩ := u'
  cases alike.duty
  refine (value other).bind fun held _ same => ?_
  subst same
  cases held with
  | none => exact .pure rfl
  | some held =>
    cases onLeft with
    | true => exact comparison comparison' v held
    | false => exact comparison comparison' held v

theorem acceptedBy {i j : Nat} {watches watches' : List (Watch Function)}
    (alike : List.Forall₂ (Watch.Alike i j) watches watches') (v : Value) :
    Relates Eq (T.Alike busy) (acceptedBy Function.call v watches)
      (acceptedBy Function.call v watches') := by
  induction alike with
  | nil => exact .pure rfl
  | cons first _ ih => exact .ite (accepts first v) ih (.pure rfl)

theorem bind (x : Var) (v : Value) :
    Relates Eq (T.Alike busy) (x.bind Function.call v) (x.bind Function.call v) := by
  refine .get_bind fun w w' alike => .ite (acceptedBy (alike.cell x).watches v) ?_ ?_
  · exact (Relates.modify fun _ _ alike => alike.modifyCell ((alike.cell x).put v)).bind
      fun _ _ _ => .pure rfl
  · exact (record _ _).bind fun _ _ _ => .pure rfl

/-- The ids that the two watches get are equally late. -/
theorem addWatch (x other : Var) (c : Comparison Function) (onLeft : Bool) :
    Relates (fun m m' => T.Entry (x, m) (x, m')) (T.Alike busy) (x.addWatch other c onLeft)
      (x.addWatch other c onLeft) :=
  fun _ _ alike => .ok ⟨rfl, (alike.cell x).nextWatch⟩
    (alike.modifyCell ((alike.cell x).addWatch other c onLeft))

theorem dropWatches {entries entries' : List (Var × Nat)}
    (noted : List.Forall₂ T.Entry entries entries') :
    Relates Eq (T.Alike busy) (dropWatches entries) (dropWatches entries') := by
  induction noted with
  | nil => exact .pure rfl
  | @cons e e' rest rest' first _ ih =>
    obtain ⟨x, m⟩ := e
    obtain ⟨x', m'⟩ := e'
    obtain ⟨rfl, level⟩ : x' = x ∧ Level _ _ m m' := first
    refine Relates.bind (V := Eq) ?_ fun _ _ _ => ih
    exact .modify fun _ _ alike => alike.modifyCell ((alike.cell x').dropWatch level)

/-! ## Leaves -/

theorem offer {x : Var} {values : List Value} (hs : Relation.domain n x values ∈ T.root.subs)
    (rest : List Value) :
    Relates Eq (T.Alike busy) (offer Function.call n x rest)
      (offer Function.call (T.number n) x rest) := by
  -- Both take the first value that their watches accept, and those have the same duties.
  induction rest with
  | nil =>
    refine (setProgress hs (.binding [])).bind fun _ _ _ => ?_
    exact (unbind x).bind fun _ _ _ => .pure rfl
  | cons v rest ih =>
    refine (setProgress hs (.binding rest)).bind fun _ _ _ => ?_
    exact .ite (bind x v) (.pure rfl) ih

theorem advanceDomain {x : Var} {values : List Value}
    (hs : Relation.domain n x values ∈ T.root.subs) :
    Relates Eq (T.Alike busy) (advanceDomain Function.call n x values)
      (advanceDomain Function.call (T.number n) x values) := by
  refine (progress hs).bind fun p p' pauses => ?_
  cases pauses with
  | fresh =>
    refine (value x).bind fun held _ same => ?_
    subst same
    cases held with
    | some v => exact (setProgress hs .checked).bind fun _ _ _ => .pure rfl
    | none => exact offer hs values
  | binding rest => exact offer hs rest
  | _ => exact .pure rfl

section Convert

variable {x y : Var} {f : Function} (hs : Relation.convert n x y f ∈ T.root.subs)
include hs

theorem releaseTarget : Relates Eq (T.Alike busy) (releaseTarget n y)
    (releaseTarget (T.number n) y) := by
  refine (progress hs).bind fun p p' pauses => ?_
  cases pauses with
  | applied owns level =>
    cases owns with
    | true => exact (unbind y).bind fun _ _ _ => setProgress hs (.applied false level)
    | false => exact .pure rfl
  | _ => exact .pure rfl

theorem applyConversion {g g' : Nat}
    (level : Level (T.left.cell x).generation (T.right.cell x).generation g g') (v : Value)
    (owns : Bool) :
    Relates Eq (T.Alike busy) (applyConversion Function.call n y f v g owns)
      (applyConversion Function.call (T.number n) y f v g' owns) := by
  have levels : ∀ z ∈ (Relation.convert n x y f).operands.head?,
      Level (T.left.cell z).generation (T.right.cell z).generation g g' := by
    rintro z ⟨⟩
    exact level
  refine (setProgress hs (.applied owns levels)).bind fun _ _ _ => ?_
  refine (callback f [v]).bind fun result _ same => ?_
  subst same
  refine (value y).bind fun held _ same => ?_
  subst same
  match owns, held with
  | false, some u => exact .pure rfl
  | true, _ | false, none =>
    refine .ite (bind y result) ?_ ?_
    · exact (setProgress hs (.applied true levels)).bind fun _ _ _ => .pure rfl
    · exact (releaseTarget hs).bind fun _ _ _ => .pure rfl

theorem advanceConvert : Relates Eq (T.Alike busy)
    (advanceConvert Function.call (.convert n x y f) n x y f)
    (advanceConvert Function.call ((Relation.convert n x y f).renumber T.number) (T.number n) x y f) := by
  refine .get_bind fun w v alike => ?_
  obtain ⟨same, level, -, -⟩ := alike.cell x
  dsimp only
  rw [same]
  cases (w.cell x).value with
  | none => exact .throw _
  | some held =>
    refine (progress hs).bind fun p p' pauses => ?_
    cases pauses with
    | @applied g g' owns noted =>
      -- Both notice whether their source has changed since they ran.
      have notice := (noted x rfl).eq_iff level
      by_cases unchanged : g = (w.cell x).generation
      · simp only [if_pos unchanged, if_pos (notice.mp unchanged)]
        exact (releaseTarget hs).bind fun _ _ _ => .pure rfl
      · simp only [if_neg unchanged, if_neg fun h => unchanged (notice.mpr h)]
        exact applyConversion hs level held owns
    | _ => exact applyConversion hs level held false

end Convert

theorem deferOperand (held : Option Value) (x other : Var) (c : Comparison Function)
    (onLeft : Bool) :
    Relates (List.Forall₂ T.Entry) (T.Alike busy) (deferOperand held x other c onLeft)
      (deferOperand held x other c onLeft) := by
  cases held with
  | some v => exact .pure .nil
  | none => exact (addWatch x other c onLeft).bind fun m m' entry => .pure (.cons entry .nil)

theorem advanceCompare {x y : Var} {c : Comparison Function}
    (hs : Relation.compare n x y c ∈ T.root.subs) :
    Relates Eq (T.Alike busy) (advanceCompare Function.call n x y c)
      (advanceCompare Function.call (T.number n) x y c) := by
  refine (progress hs).bind fun p p' pauses => ?_
  cases pauses with
  | fired noted =>
    refine (dropWatches noted).bind fun _ _ _ => ?_
    exact (setProgress hs (.fired .nil)).bind fun _ _ _ => .pure rfl
  | _ =>
    refine (setProgress hs (.fired .nil)).bind fun _ _ _ => ?_
    refine (value x).bind fun left _ same => ?_
    subst same
    refine (value y).bind fun right _ same => ?_
    subst same
    match left, right with
    | some v, some u => exact comparison c v u
    -- The watches have other numbers on the right, but equally late ones.
    | none, right | some v, none =>
      refine (deferOperand _ x y c true).bind fun _ _ onLeft => ?_
      refine (deferOperand _ y x c false).bind fun _ _ onRight => ?_
      exact (setProgress hs (.fired (List.rel_append onLeft onRight))).bind fun _ _ _ => .pure rfl

theorem advancePredicate {xs : List Var} {f : Function}
    (hs : Relation.predicate n xs f ∈ T.root.subs) :
    Relates Eq (T.Alike busy)
      (advancePredicate Function.call (.predicate n xs f) n xs f)
      (advancePredicate Function.call ((Relation.predicate n xs f).renumber T.number)
        (T.number n) xs f) := by
  have valuesOf {w v : World Function σ} (alike : T.Alike busy w v) :
      v.valuesOf xs = w.valuesOf xs := by
    clear hs
    induction xs with
    | nil => rfl
    | cons x xs ih => simp only [World.valuesOf, alike.value x, ih]
  refine (progress hs).bind fun p p' pauses => ?_
  cases pauses with
  | fired noted => exact .pure rfl
  | _ =>
    refine .get_bind fun w v alike => ?_
    rw [valuesOf alike]
    cases w.valuesOf xs with
    | error x => exact .throw _
    | ok values => exact (setProgress hs (.fired .nil)).bind fun _ _ _ => holds f values

theorem advanceAlways (hs : Relation.always n ∈ T.root.subs) :
    Relates Eq (T.Alike busy) (advanceAlways n) (advanceAlways (T.number n)) := by
  refine (progress hs).bind fun p p' pauses => ?_
  cases pauses with
  | fired noted => exact .pure rfl
  | _ => exact (setProgress hs (.fired .nil)).bind fun _ _ _ => .pure rfl

theorem retract (hs : s ∈ T.root.subs) :
    Relates Eq (T.Alike busy) (retract s) (retract (s.renumber T.number)) := by
  cases s with
  | domain n x values =>
    refine (progress hs).bind fun p p' pauses => ?_
    cases pauses with
    | binding rest => exact unbind x
    | _ => exact .pure rfl
  | convert n x y f => exact releaseTarget hs
  | compare n x y c =>
    refine (progress hs).bind fun p p' pauses => ?_
    cases pauses with
    | fired noted => exact dropWatches noted
    | _ => exact .pure rfl
  | and | or | predicate | always | never => exact .pure rfl

/-! ## Combinations -/

section Combinations

variable {left right left' right' : Act Function σ Bool} {rewind rewind' : Act Function σ Unit}
variable (hs : s ∈ T.root.subs) (hl : Relates Eq (T.Alike busy) left left')
variable (hr : Relates Eq (T.Alike busy) right right')
variable (hw : Relates Eq (T.Alike busy) rewind rewind')
include hs hl hr hw

theorem conjoin (fuel : Nat) : Relates Eq (T.Alike busy) (conjoin s.node left right rewind fuel)
    (conjoin (T.number s.node) left' right' rewind' fuel) := by
  induction fuel with
  | zero => exact .throw _
  | succ fuel ih =>
    refine .ite hl ?_ ((setProgress hs .exhausted).bind fun _ _ _ => .pure rfl)
    refine (setProgress hs .retrying).bind fun _ _ _ => ?_
    exact .ite hr (.pure rfl) (hw.bind fun _ _ _ => ih)

theorem advanceAnd (fuel : Nat) :
    Relates Eq (T.Alike busy) (advanceAnd fuel s.node left right rewind)
      (advanceAnd fuel (T.number s.node) left' right' rewind') := by
  have loop := conjoin hs hl hr hw fuel
  refine (progress hs).bind fun p p' pauses => ?_
  cases pauses with
  | exhausted => exact .pure rfl
  | retrying => exact .ite hr (.pure rfl) (hw.bind fun _ _ _ => loop)
  | _ => exact loop

theorem advanceOr : Relates Eq (T.Alike busy) (advanceOr s.node left right rewind)
    (advanceOr (T.number s.node) left' right' rewind') := by
  have later : Relates Eq (T.Alike busy) (disjoinRight s.node right)
      (disjoinRight (T.number s.node) right') :=
    .ite hr (.pure rfl) ((setProgress hs .exhausted).bind fun _ _ _ => .pure rfl)
  refine (progress hs).bind fun p p' pauses => ?_
  cases pauses with
  | exhausted => exact .pure rfl
  | inRight => exact later
  | _ =>
    refine .ite hl ((setProgress hs .inLeft).bind fun _ _ _ => .pure rfl) ?_
    exact hw.bind fun _ _ _ => (setProgress hs .inRight).bind fun _ _ _ => later

end Combinations

/-! ## Calls -/

/-- When a call is over, its node is as busy as before. -/
theorem Alike.release {w v : World Function σ} (idle : busy s.node = false)
    (alike : T.Alike (Function.update busy s.node true) w v) (hs : s ∈ T.root.subs) :
    T.Alike busy (w.setBusy s.node false) (v.setBusy (T.number s.node) false) := by
  -- The node was idle before, so that releasing it undoes holding it.
  have back : Function.update (Function.update busy s.node true) s.node false = busy := by
    rw [Function.update_idem, ← idle, Function.update_eq_self]
  exact back ▸ alike.setBusy hs false

theorem answering (hs : s ∈ T.root.subs) (idle : busy s.node = false)
    {search search' : Act Function σ Bool}
    (h : Relates Eq (T.Alike (Function.update busy s.node true)) search search') :
    Relates Eq (T.Alike busy) (answering s search)
      (answering (s.renumber T.number) search') := by
  intro w v alike
  obtain ⟨left, right⟩ := alike.busy _ (List.mem_map_of_mem hs)
  have right' : (v.node (s.renumber T.number).node).busy = false := by
    rw [node_renumber, right, idle]
  have inner := h _ _ (alike.setBusy hs true)
  rw [answering_of_idle (left.trans idle), answering_of_idle right', node_renumber]
  generalize search (w.setBusy s.node true) = result, search' _ = result' at inner ⊢
  cases inner with
  | @ok answer answer' w₁ v₁ values worlds =>
    subst values
    refine .ok rfl ?_
    unfold World.concluded
    rw [node_renumber]
    have counted := (worlds.release idle hs).count hs fun counters => { counters with
      solveCalls := counters.solveCalls + 1
      successes := counters.successes + answer.toNat }
    exact counted.record _ _
  | error worlds => exact .error (worlds.release idle hs)

theorem rewinding (hs : s ∈ T.root.subs) (idle : busy s.node = false)
    {undo undo' : Act Function σ Unit}
    (h : Relates Eq (T.Alike (Function.update busy s.node true)) undo undo') :
    Relates Eq (T.Alike busy) (rewinding s undo) (rewinding (s.renumber T.number) undo') := by
  intro w v alike
  obtain ⟨left, right⟩ := alike.busy _ (List.mem_map_of_mem hs)
  have right' : (v.node (s.renumber T.number).node).busy = false := by
    rw [node_renumber, right, idle]
  have inner := h _ _ (alike.setBusy hs true)
  rw [rewinding_of_idle (left.trans idle), rewinding_of_idle right', node_renumber]
  generalize undo (w.setBusy s.node true) = result, undo' _ = result' at inner ⊢
  cases inner with
  | ok values worlds =>
    refine .ok rfl ?_
    unfold World.rewound
    rw [node_renumber]
    have counted := ((worlds.noted hs .fresh).release idle hs).count hs fun counters =>
      { counters with resets := counters.resets + 1 }
    exact counted.record _ _
  | error worlds => exact .error (worlds.release idle hs)

/-- What is below a node is not busy because the node is. -/
theorem idle_below (hs : s ∈ T.root.subs) (idle : ∀ m ∈ s.ids, busy m = false)
    {t : Relation Function} (ht : t ∈ s.parts) :
    ∀ m ∈ t.ids, Function.update busy s.node true m = false := by
  intro m hm
  have ne : m ≠ s.node := fun e => (T.coherent.mono hs).node_not_mem ht (e ▸ hm)
  rw [Function.update_of_ne ne]
  exact idle m (mem_ids_of_mem_subs (mem_subs_of_mem_parts ht) hm)

/-- **A reset of the graph and one of its copy keep step.** -/
theorem reset (hs : s ∈ T.root.subs) (idle : ∀ m ∈ s.ids, busy m = false) :
    Relates Eq (T.Alike busy) s.reset (s.renumber T.number).reset := by
  induction s generalizing busy with
  | and n l r ihl ihr =>
    refine rewinding hs (idle n (node_mem_ids _)) ?_
    refine (ihr (mem_subs_of_part right_part_and hs) (idle_below hs idle right_part_and)).bind
      fun _ _ _ => ?_
    exact ihl (mem_subs_of_part left_part_and hs) (idle_below hs idle left_part_and)
  | or n l r ihl ihr =>
    refine rewinding hs (idle n (node_mem_ids _)) ?_
    refine (ihl (mem_subs_of_part left_part_or hs) (idle_below hs idle left_part_or)).bind
      fun _ _ _ => ?_
    exact ihr (mem_subs_of_part right_part_or hs) (idle_below hs idle right_part_or)
  | domain n | convert n | compare n | predicate n | always n | never n =>
    exact rewinding hs (idle n (node_mem_ids _)) (retract hs)

/-- **A call of `solve` on the graph and one on its copy keep step.** -/
theorem solve (hs : s ∈ T.root.subs) (idle : ∀ m ∈ s.ids, busy m = false) :
    Relates Eq (T.Alike busy) (s.solve Function.call fuel)
      ((s.renumber T.number).solve Function.call fuel) := by
  induction s generalizing busy with
  | and n l r ihl ihr =>
    have hl := mem_subs_of_part left_part_and hs
    have hr := mem_subs_of_part right_part_and hs
    have below := idle_below hs idle right_part_and
    exact answering hs (idle n (node_mem_ids _)) (advanceAnd hs
      (ihl hl (idle_below hs idle left_part_and)) (ihr hr below) (reset hr below) fuel)
  | or n l r ihl ihr =>
    have hl := mem_subs_of_part left_part_or hs
    have hr := mem_subs_of_part right_part_or hs
    have below := idle_below hs idle left_part_or
    exact answering hs (idle n (node_mem_ids _)) (advanceOr hs
      (ihl hl below) (ihr hr (idle_below hs idle right_part_or)) (reset hl below))
  | domain n => exact answering hs (idle n (node_mem_ids _)) (advanceDomain hs)
  | convert n => exact answering hs (idle n (node_mem_ids _)) (advanceConvert hs)
  | compare n => exact answering hs (idle n (node_mem_ids _)) (advanceCompare hs)
  | predicate n => exact answering hs (idle n (node_mem_ids _)) (advancePredicate hs)
  | always n => exact answering hs (idle n (node_mem_ids _)) (advanceAlways hs)
  | never n => exact answering hs (idle n (node_mem_ids _)) (.pure rfl)

end Twin
end RelationSearch
