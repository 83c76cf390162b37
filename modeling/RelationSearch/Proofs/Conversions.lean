import RelationSearch.Proofs.AsBuilt

/-! # When a conversion fires

A conversion remembers the generation of its source, and not the source's value.  So it can tell a source
that was bound anew from one that stayed as it was, also where the new value is the old one.

`Linkage` is what may happen to a conversion whose target is left to it: the client sets and unsets the source,
and solves and resets the conversion, in any order.  The conversion is *due* (`due`) if the source has
changed since the conversion last answered, or if it has not answered since it was last reset.  A call
answers `true` if it is due, and then the target holds the conversion of the source's value, and
`false` with an unbound target if it is not (`Relation.fires_once_per_binding`).  This rests on the
generation, which rises whenever the source changes and never otherwise.
-/
namespace RelationSearch

open Act RelationSearch.Relation

variable {κ σ : Type} {call : Caller κ σ} {fuel n : Nat} {x y : Var} {f : κ} {g : Value → Value}
variable {w w' : World κ σ}

/-! ## What happens to a conversion -/

/-- Something that the client does with a conversion or with its source, and what came of it. -/
inductive LinkEvent
  | set (v : Value) (reply : Except Interrupt Bool)
  /-- The source is unset.  It may have been bound before. -/
  | unset (wasBound : Bool)
  | solve (reply : Except Interrupt Bool)
  | reset

namespace LinkEvent

/-- The source took a value, or lost one. -/
def changesSource : LinkEvent → Bool
  | .set _ (.ok taken) => taken
  | .unset wasBound => wasBound
  | _ => false

/-- A call of `solve` came back with an answer. -/
def answered : LinkEvent → Bool
  | .solve (.ok _) => true
  | _ => false

def resets : LinkEvent → Bool
  | .reset => true
  | _ => false

end LinkEvent

/-- Whether a conversion has something to do, after what happened, the latest first: the source has changed
since the last answer, or there was no answer since the last reset. -/
def due (past : List LinkEvent) : Bool :=
  (past.takeWhile (!·.answered)).any LinkEvent.changesSource ||
    (past.takeWhile (!·.resets)).all (!·.answered)

@[simp] theorem due_nil : due [] = true := rfl

theorem due_of_changesSource {e : LinkEvent} (changes : e.changesSource) (past : List LinkEvent) :
    due (e :: past) = true := by
  cases e with
  | set v reply | unset wasBound =>
    simp [due, LinkEvent.answered, changes]
  | solve | reset => cases changes

@[simp] theorem due_reset (past : List LinkEvent) : due (.reset :: past) = true := by
  simp [due, LinkEvent.resets]

@[simp] theorem due_answered (answer : Bool) (past : List LinkEvent) :
    due (.solve (.ok answer) :: past) = false := by
  simp [due, LinkEvent.answered, LinkEvent.resets]

/-- Whatever else happens makes no difference. -/
theorem due_of_idle {e : LinkEvent} (still : e.changesSource = false) (silent : e.answered = false)
    (goesOn : e.resets = false) (past : List LinkEvent) : due (e :: past) = due past := by
  simp [due, still, silent, goesOn]

/-- What may happen to a conversion and its source, from when it was made.  In between anything may happen
that leaves its node, its target and the source's binding alone. -/
inductive Linkage (call : Caller κ σ) (n : Nat) (x y : Var) (f : κ) :
    List LinkEvent → World κ σ → Prop
  | start {w : World κ σ} (ready : (Relation.convert n x y f).Ready w) (free : w.value y = none)
      (unwatched : (w.cell y).watches = []) : Linkage call n x y f [] w
  | set {past : List LinkEvent} {w : World κ σ} (run : Linkage call n x y f past w) (v : Value) :
    Linkage call n x y f (.set v ((x.bind call v).reply w) :: past) ((x.bind call v).final w)
  | unset {past : List LinkEvent} {w : World κ σ} (run : Linkage call n x y f past w) :
    Linkage call n x y f (.unset (w.value x).isSome :: past) (x.unbind.final w)
  | solve {past : List LinkEvent} {w : World κ σ} (run : Linkage call n x y f past w) (fuel : Nat) :
    Linkage call n x y f (.solve (((Relation.convert n x y f).solve call fuel).reply w) :: past)
      (((Relation.convert n x y f).solve call fuel).final w)
  | reset {past : List LinkEvent} {w : World κ σ} (run : Linkage call n x y f past w) :
    Linkage call n x y f (.reset :: past) ((Relation.convert n x y f).reset.final w)
  | meanwhile {past : List LinkEvent} {w w' : World κ σ} (run : Linkage call n x y f past w)
      (node : w'.node n = w.node n) (value : w'.value x = w.value x)
      (generation : (w'.cell x).generation = (w.cell x).generation)
      (target : w'.cell y = w.cell y) : Linkage call n x y f past w'

theorem Linkage.set_ok {past : List LinkEvent} (run : Linkage call n x y f past w) {v : Value}
    {taken : Bool} (ran : x.bind call v w = .ok taken w') :
    Linkage call n x y f (.set v (.ok taken) :: past) w' := by
  simpa only [Act.reply, Act.final, ran] using run.set v

theorem Linkage.solve_ok {past : List LinkEvent} (run : Linkage call n x y f past w) {answer : Bool}
    (ran : (Relation.convert n x y f).solve call fuel w = .ok answer w') :
    Linkage call n x y f (.solve (.ok answer) :: past) w' := by
  simpa only [Act.reply, Act.final, ran] using run.solve fuel

/-! ## Generations -/

namespace Var

/-- A variable without watches takes every value. -/
theorem bind_of_unwatched (unwatched : (w.cell x).watches = []) (v : Value) :
    x.bind call v w = .ok true (w.modifyCell x (·.put v)) := by
  simp only [Var.bind, bind_apply, get_apply, unwatched, acceptedBy, pure_apply, if_true,
    modify_apply]

/-- A variable that takes a value gets a new generation, and one that does not stays as it is. -/
theorem generation_bind (quiet : call.Quiet) (x : Var) (v : Value) (w : World κ σ) :
    ((x.bind call v).reply w = .ok true ∧
      (((x.bind call v).final w).cell x).generation = (w.cell x).generation + 1) ∨
    ((x.bind call v).reply w ≠ .ok true ∧ ((x.bind call v).final w).cell x = w.cell x) := by
  obtain ⟨w₁, untouched, ran | ran | ⟨why, ran⟩⟩ := quiet.bind_cases x v w <;>
    simp only [Act.reply, Act.final, ran]
  · refine .inl ⟨trivial, ?_⟩
    rw [World.cell_modifyCell_self, Cell.generation_put, untouched.cell]
  · exact .inr ⟨fun took => Bool.false_ne_true (Except.ok.inj took), untouched.cell x⟩
  · exact .inr ⟨fun took => (by cases took), untouched.cell x⟩

/-- A bound variable that is unset gets a new generation, and an unbound one stays as it is. -/
theorem generation_unbind (x : Var) (w : World κ σ) :
    ((w.value x).isSome → ((x.unbind.final w).cell x).generation = (w.cell x).generation + 1) ∧
    (w.value x = none → (x.unbind.final w).cell x = w.cell x) := by
  rw [Act.final, unbind_apply]
  dsimp only
  rw [World.cell_modifyCell_self]
  constructor
  · intro bound
    rw [Cell.generation_clear, show (w.cell x).value.isSome = true from bound, if_pos rfl]
  · intro free
    rw [Cell.clear, show (w.cell x).value = none from free]

end Var

/-! ## Where a conversion stands -/

/-- What a conversion has noted, after what happened to it. -/
inductive LinkNote (n : Nat) (x y : Var) (past : List LinkEvent) (w : World κ σ) : Prop
  | fresh (progress : (w.node n).progress = .fresh) (free : w.value y = none)
      (isDue : due past = true)
  | applied {generation : Nat} {ownsTarget : Bool}
      (progress : (w.node n).progress = .applied generation ownsTarget)
      (owns : (w.value y).isSome = ownsTarget) (older : generation ≤ (w.cell x).generation)
      (isDue : due past = decide (generation ≠ (w.cell x).generation))

/-- The invariant of a conversion whose target is left to it. -/
structure Linked (n : Nat) (x y : Var) (past : List LinkEvent) (w : World κ σ) : Prop where
  idle : (w.node n).busy = false
  unwatched : (w.cell y).watches = []
  note : LinkNote n x y past w

/-- The world that a search of a conversion leaves, having put the value `held` into its target. -/
structure LinkLeft (n : Nat) (x y : Var) (held : Option Value) (w w' : World κ σ) : Prop where
  progress : (w'.node n).progress = .applied (w.cell x).generation held.isSome
  value : w'.value y = held
  unwatched : (w'.cell y).watches = []
  source : w'.cell x = w.cell x

section Steps

variable {past past' : List LinkEvent}

/-- Whatever leaves the conversion and its target alone.  If the source has changed, the conversion is due. -/
theorem Linked.beside (h : Linked n x y past w) (node : w'.node n = w.node n)
    (target : w'.cell y = w.cell y)
    (source : (w'.cell x).generation = (w.cell x).generation ∧ due past' = due past ∨
      (w.cell x).generation < (w'.cell x).generation ∧ due past' = true) :
    Linked n x y past' w' := by
  refine ⟨node ▸ h.idle, target ▸ h.unwatched, ?_⟩
  have value : w'.value y = w.value y := congrArg Cell.value target
  cases h.note with
  | fresh progress free isDue =>
    refine .fresh (node ▸ progress) (value ▸ free) ?_
    rcases source with ⟨-, same⟩ | ⟨-, dueNow⟩
    · exact same.trans isDue
    · exact dueNow
  | applied progress owns older isDue =>
    rcases source with ⟨still, same⟩ | ⟨later, dueNow⟩
    · exact .applied (node ▸ progress) (value ▸ owns) (still ▸ older) (still ▸ same.trans isDue)
    · refine .applied (node ▸ progress) (value ▸ owns) (by omega) (dueNow.trans ?_)
      exact (decide_eq_true (by omega)).symm

/-- The conversion has answered. -/
theorem LinkLeft.linked {held : Option Value} (left : LinkLeft n x y held w w')
    (idle : (w'.node n).busy = false) (answer : Bool) :
    Linked n x y (.solve (.ok answer) :: past) w' where
  idle := idle
  unwatched := left.unwatched
  note := by
    refine .applied left.progress (congrArg Option.isSome left.value)
      (Nat.le_of_eq (congrArg Cell.generation left.source).symm) ?_
    rw [due_answered, left.source]
    simp

/-- A target that is left to the conversion takes what the conversion gives. -/
theorem applyConversion_takes (quiet : call.Quiet) {v : Value}
    (answers : ∀ w : World κ σ, ∃ w', call f [v] w = .ok (g v) w') (apart : x.id ≠ y.id)
    (unwatched : (w.cell y).watches = []) {ownsTarget : Bool}
    (owns : (w.value y).isSome = ownsTarget) :
    ∃ w', applyConversion call n y f v (w.cell x).generation ownsTarget w = .ok true w' ∧
      LinkLeft n x y (some (g v)) w w' := by
  obtain ⟨w₁, ran⟩ := answers (w.noted n (.applied (w.cell x).generation ownsTarget))
  have untouched : Untouched (w.noted n (.applied (w.cell x).generation ownsTarget)) w₁ :=
    (quiet f [v]).of_ok ran
  have target : w₁.cell y = w.cell y := untouched.cell y
  have value : w₁.value y = w.value y := congrArg Cell.value target
  have offered : y.bind call (g v) w₁ = .ok true (w₁.modifyCell y (·.put (g v))) :=
    Var.bind_of_unwatched (target ▸ unwatched) (g v)
  refine ⟨(w₁.modifyCell y (·.put (g v))).noted n (.applied (w.cell x).generation true), ?_, ?_⟩
  · simp only [applyConversion, bind_apply, setProgress_apply, ran, value_apply, value]
    cases ownsTarget with
    | false =>
      rw [Option.isSome_eq_false_iff, Option.isNone_iff_eq_none] at owns
      simp only [owns, bind_apply, offered, if_true, setProgress_apply, pure_apply]
    | true => simp only [bind_apply, offered, if_true, setProgress_apply, pure_apply]
  · refine ⟨World.progress_noted .., ?_, ?_, ?_⟩
    · rw [World.value_noted, World.value, World.cell_modifyCell_self, Cell.value_put]
    · rw [World.cell_noted, World.cell_modifyCell_self, target]
      exact unwatched
    · rw [World.cell_noted, World.cell_modifyCell_of_ne _ _ apart.symm]
      exact untouched.cell x

/-- A conversion gives its target up, if it had bound it. -/
theorem releaseTarget_frees (apart : x.id ≠ y.id) (unwatched : (w.cell y).watches = [])
    (owns : (w.value y).isSome → ∃ generation, (w.node n).progress = .applied generation true) :
    ∃ w', releaseTarget n y w = .ok ⟨⟩ w' ∧ w'.value y = none ∧ (w'.cell y).watches = [] ∧
      w'.cell x = w.cell x ∧ ∀ generation ownsTarget,
        (w.node n).progress = .applied generation ownsTarget →
          (w'.node n).progress = .applied generation false := by
  by_cases owning : ∃ generation, (w.node n).progress = .applied generation true
  · obtain ⟨generation, progress⟩ := owning
    refine ⟨_, releaseTarget_of_owning progress, ?_, ?_, ?_, fun _ _ known => ?_⟩
    · rw [World.value_noted, value_modifyCell_clear]
    · rw [World.cell_noted, World.cell_modifyCell_self, Cell.watches_clear]
      exact unwatched
    · rw [World.cell_noted, World.cell_modifyCell_of_ne _ _ apart.symm]
    · cases progress.symm.trans known
      exact World.progress_noted ..
  · have spent (generation : Nat) : (w.node n).progress ≠ .applied generation true :=
      fun progress => owning ⟨generation, progress⟩
    refine ⟨w, releaseTarget_of_spent spent, ?_, unwatched, rfl, fun generation ownsTarget known => ?_⟩
    · exact Option.not_isSome_iff_eq_none.mp fun bound => owning (owns bound)
    · cases ownsTarget with
      | true => exact absurd known (spent generation)
      | false => exact known

theorem LinkNote.owning (h : LinkNote n x y past w) (bound : (w.value y).isSome) :
    ∃ generation, (w.node n).progress = .applied generation true := by
  cases h with
  | fresh _ free _ =>
    rw [free] at bound
    cases bound
  | applied progress owns _ _ =>
    rw [← owns.symm.trans bound]
    exact ⟨_, progress⟩

/-- The search of a conversion whose source is bound. -/
theorem Linked.advances (quiet : call.Quiet) {v : Value}
    (answers : ∀ w : World κ σ, ∃ w', call f [v] w = .ok (g v) w') (apart : x.id ≠ y.id)
    (unwatched : (w.cell y).watches = []) (note : LinkNote n x y past w) (held : w.value x = some v) :
    ∃ w', advanceConvert call (.convert n x y f) n x y f w = .ok (due past) w' ∧
      LinkLeft n x y (if due past then some (g v) else none) w w' := by
  have source : (w.cell x).value = some v := held
  cases note with
  | fresh progress free isDue =>
    obtain ⟨w', ran, left⟩ := applyConversion_takes (n := n) quiet answers apart unwatched
      (congrArg Option.isSome free)
    refine ⟨w', ?_, by rwa [isDue, if_pos rfl]⟩
    simp only [advanceConvert, bind_apply, get_apply, source, progress_apply, progress, isDue]
    exact ran
  | @applied generation ownsTarget progress owns older isDue =>
    by_cases current : generation = (w.cell x).generation
    · subst current
      have notDue : due past = false := isDue.trans (decide_eq_false (not_not_intro rfl))
      have note : LinkNote n x y past w := .applied progress owns older isDue
      obtain ⟨w', ran, free, still, source', noted⟩ := releaseTarget_frees apart unwatched note.owning
      rw [notDue, if_neg Bool.false_ne_true]
      refine ⟨w', ?_, noted _ _ progress, free, still, source'⟩
      simp only [advanceConvert, bind_apply, get_apply, source, progress_apply, progress, if_true,
        ran, pure_apply]
    · have isDue : due past = true := isDue.trans (decide_eq_true current)
      obtain ⟨w', ran, left⟩ := applyConversion_takes (n := n) quiet answers apart unwatched owns
      refine ⟨w', ?_, by rwa [isDue, if_pos rfl]⟩
      simp only [advanceConvert, bind_apply, get_apply, source, progress_apply, progress,
        if_neg current, isDue]
      exact ran

theorem LinkNote.setBusy (h : LinkNote n x y past w) (busy : Bool) :
    LinkNote n x y past (w.setBusy n busy) := by
  cases h with
  | fresh progress free isDue => exact .fresh ((World.progress_setBusy ..).trans progress) free isDue
  | applied progress owns older isDue =>
    exact .applied ((World.progress_setBusy ..).trans progress) owns older isDue

theorem LinkLeft.concluded {held : Option Value} (left : LinkLeft n x y held (w.setBusy n true) w')
    (f : κ) (answer : Bool) : LinkLeft n x y held w (w'.concluded (.convert n x y f) answer) where
  progress := (World.progress_concluded ..).trans left.progress
  value := (World.value_concluded ..).trans left.value
  unwatched := (congrArg Cell.watches (World.cell_concluded ..)).trans left.unwatched
  source := (World.cell_concluded ..).trans left.source

/-- A call on a conversion whose source is bound. -/
theorem Linked.solve (quiet : call.Quiet) (fuel : Nat) {v : Value}
    (answers : ∀ w : World κ σ, ∃ w', call f [v] w = .ok (g v) w') (apart : x.id ≠ y.id)
    (h : Linked n x y past w) (held : w.value x = some v) :
    ∃ w', (Relation.convert n x y f).solve call fuel w = .ok (due past) w' ∧
      w'.value y = (if due past then some (g v) else none) ∧ w'.cell x = w.cell x ∧
      Linked n x y (.solve (.ok (due past)) :: past) w' := by
  obtain ⟨w₁, ran, left⟩ := Linked.advances (w := w.setBusy n true) quiet answers apart h.unwatched
    (h.note.setBusy true) held
  have concluded := left.concluded f (due past)
  refine ⟨_, ?_, concluded.value, concluded.source, concluded.linked (World.busy_concluded ..) _⟩
  rw [Relation.solve, answering_of_idle h.idle]
  simp only [Relation.node, ran]

/-- A call on a conversion whose source is unbound changes nothing. -/
theorem solve_convert_of_unbound (idle : (w.node n).busy = false) (free : w.value x = none) :
    (Relation.convert n x y f).solve call fuel w =
      .error (.unbound x.name (Relation.convert n x y f).bareImage)
        ((w.setBusy n true).setBusy n false) := by
  have source : ((w.setBusy n true).cell x).value = none := free
  rw [Relation.solve, answering_of_idle idle]
  simp only [advanceConvert, bind_apply, get_apply, Relation.node, source, throw_apply]

theorem World.node_released (idle : (w.node n).busy = false) (m : Nat) :
    ((w.setBusy n true).setBusy n false).node m = w.node m := by
  by_cases here : n = m
  · subst here
    rw [World.setBusy, World.setBusy, World.node_modifyNode_self, World.node_modifyNode_self, ← idle]
  · rw [World.node_setBusy_of_ne _ _ here, World.node_setBusy_of_ne _ _ here]

/-- A reset gives the target up, and the conversion is due again. -/
theorem Linked.reset (apart : x.id ≠ y.id) (h : Linked n x y past w) :
    ∃ w', ((Relation.convert n x y f).reset : Act κ σ Unit) w = .ok ⟨⟩ w' ∧ w'.value y = none ∧
      Linked n x y (.reset :: past) w' := by
  obtain ⟨w₁, ran, free, unwatched, -, -⟩ :=
    releaseTarget_frees (n := n) (w := w.setBusy n true) apart h.unwatched (h.note.setBusy true).owning
  refine ⟨w₁.rewound (.convert n x y f), ?_, (World.value_rewound ..).trans free, ?_⟩
  · show rewinding (.convert n x y f) (releaseTarget n y) w = _
    rw [rewinding_of_idle h.idle]
    simp only [Relation.node, ran]
  · refine ⟨World.busy_rewound w₁ (.convert n x y f), ?_, .fresh ?_ ?_ (due_reset past)⟩
    · rw [World.cell_rewound]
      exact unwatched
    · exact World.progress_rewound w₁ (.convert n x y f)
    · exact (World.value_rewound ..).trans free

end Steps

/-- **A step keeps the invariant**, and so does every run of steps. -/
theorem Linkage.linked (quiet : call.Quiet)
    (answers : ∀ (v : Value) (w : World κ σ), ∃ w', call f [v] w = .ok (g v) w') (apart : x.id ≠ y.id)
    {past : List LinkEvent} (run : Linkage call n x y f past w) : Linked n x y past w := by
  induction run with
  | start ready free unwatched =>
    obtain ⟨fresh, idle⟩ := ready n (node_mem_ids _)
    exact ⟨idle, unwatched, .fresh fresh free due_nil⟩
  | @set past w run v ih =>
    obtain ⟨w₁, untouched, ran | ran | ⟨why, ran⟩⟩ := quiet.bind_cases x v w <;>
      simp only [Act.reply, Act.final, ran]
    · refine ih.beside (untouched.node n) ?_ (.inr ⟨?_, due_of_changesSource rfl past⟩)
      · rw [World.cell_modifyCell_of_ne _ _ apart]
        exact untouched.cell y
      · rw [World.cell_modifyCell_self, Cell.generation_put, untouched.cell]
        exact Nat.lt_succ_self _
    · exact ih.beside (untouched.node n) (untouched.cell y)
        (.inl ⟨congrArg Cell.generation (untouched.cell x), due_of_idle rfl rfl rfl past⟩)
    · exact ih.beside (untouched.node n) (untouched.cell y)
        (.inl ⟨congrArg Cell.generation (untouched.cell x), due_of_idle rfl rfl rfl past⟩)
  | @unset past w run ih =>
    obtain ⟨raised, kept⟩ := Var.generation_unbind x w
    have target : (x.unbind.final w).cell y = w.cell y := World.cell_modifyCell_of_ne _ _ apart
    cases held : w.value x with
    | none =>
      exact ih.beside rfl target
        (.inl ⟨congrArg Cell.generation (kept held), due_of_idle rfl rfl rfl past⟩)
    | some v =>
      refine ih.beside rfl target (.inr ⟨?_, due_of_changesSource rfl past⟩)
      rw [raised (held ▸ rfl)]
      exact Nat.lt_succ_self _
  | @solve past w run fuel ih =>
    cases held : w.value x with
    | none =>
      simp only [Act.reply, Act.final, solve_convert_of_unbound ih.idle held]
      exact ih.beside (World.node_released ih.idle n) rfl (.inl ⟨rfl, due_of_idle rfl rfl rfl past⟩)
    | some v =>
      obtain ⟨w', ran, -, -, linked⟩ := ih.solve quiet fuel (answers v) apart held
      simp only [Act.reply, Act.final, ran]
      exact linked
  | reset run ih =>
    obtain ⟨w', ran, -, linked⟩ := ih.reset (f := f) apart
    rw [final_of_ok ran]
    exact linked
  | meanwhile run node value generation target ih =>
    exact ih.beside node target (.inl ⟨generation, rfl⟩)

/-! ## What calls do -/

/-- What calls on a conversion and on its source do, after what happened to them. -/
structure FiresWhenDue (call : Caller κ σ) (fuel n : Nat) (x y : Var) (f : κ) (g : Value → Value)
    (past : List LinkEvent) (w : World κ σ) : Prop where
  /-- With an unbound source, solving is an error and changes nothing. -/
  unbound : w.value x = none → ∃ w', (Relation.convert n x y f).solve call fuel w =
    .error (.unbound x.name (Relation.convert n x y f).bareImage) w' ∧
      (∀ z, w'.cell z = w.cell z) ∧ ∀ m, w'.node m = w.node m
  /-- With a bound source, solving answers whether the conversion is due.  Then, and only then, is the
  target bound, and it holds what the conversion gives for the source. -/
  bound : ∀ v, w.value x = some v →
    ∃ w', (Relation.convert n x y f).solve call fuel w = .ok (due past) w' ∧
      w'.value y = (if due past then some (g v) else none) ∧ w'.cell x = w.cell x
  /-- After a reset the target is unbound. -/
  reset : ∃ w', ((Relation.convert n x y f).reset : Act κ σ Unit) w = .ok ⟨⟩ w' ∧ w'.value y = none
  /-- A value that the source takes raises its generation.  One that it does not take leaves it alone. -/
  set : ∀ v, ((x.bind call v).reply w = .ok true ∧
      (w.cell x).generation < (((x.bind call v).final w).cell x).generation) ∨
    ((x.bind call v).reply w ≠ .ok true ∧ ((x.bind call v).final w).cell x = w.cell x)
  /-- Unsetting the source raises its generation if it was bound, and leaves it alone otherwise. -/
  unset : ((w.value x).isSome → (w.cell x).generation < ((x.unbind.final w).cell x).generation) ∧
    (w.value x = none → (x.unbind.final w).cell x = w.cell x)

namespace Relation

/-- **A conversion fires exactly once per binding of its source.**  After any sets and unsets of the source
and any calls on the conversion, a call of `solve` is an error if the source is unbound, and otherwise
answers whether the source has changed since the last answer, or there was no answer since the last
reset; the target is bound just when the answer was `true`. -/
theorem fires_once_per_binding (quiet : call.Quiet)
    (answers : ∀ (v : Value) (w : World κ σ), ∃ w', call f [v] w = .ok (g v) w') (apart : x.id ≠ y.id)
    {past : List LinkEvent} (run : Linkage call n x y f past w) :
    FiresWhenDue call fuel n x y f g past w := by
  have linked := run.linked quiet answers apart
  refine ⟨fun free => ?_, fun v held => ?_, ?_, fun v => ?_, ?_⟩
  · exact ⟨_, solve_convert_of_unbound linked.idle free, fun _ => rfl, World.node_released linked.idle⟩
  · obtain ⟨w', ran, target, source, -⟩ := linked.solve quiet fuel (answers v) apart held
    exact ⟨w', ran, target, source⟩
  · obtain ⟨w', ran, free, -⟩ := linked.reset apart
    exact ⟨w', ran, free⟩
  · refine (Var.generation_bind quiet x v w).imp_left fun ⟨took, raised⟩ => ⟨took, ?_⟩
    rw [raised]
    exact Nat.lt_succ_self _
  · obtain ⟨raised, kept⟩ := Var.generation_unbind x w
    refine ⟨fun bound => ?_, kept⟩
    rw [raised bound]
    exact Nat.lt_succ_self _

theorem rebinding_calls :
    let x : Var := ⟨0, "X"⟩
    let link : Relation Function := .convert 0 x ⟨1, "Y"⟩ (.total .list)
    ∃ bound found again : World Function Unit,
      x.bind Function.call .unit { client := () } = .ok true bound ∧
      link.solve Function.call 0 bound = .ok true found ∧
      x.bind Function.call .unit found = .ok true again ∧ again.value x = some .unit :=
  ⟨_, _, _, rfl, rfl, rfl, rfl⟩

/-- The source is set, the conversion is solved, and the source is set to the same value again: the
conversion fires once more, and then no more. -/
theorem rebinding_fires_again :
    let x : Var := ⟨0, "X"⟩
    let y : Var := ⟨1, "Y"⟩
    let link : Relation Function := .convert 0 x y (.total .list)
    ∃ bound found again w' w'' : World Function Unit,
      x.bind Function.call .unit { client := () } = .ok true bound ∧
      link.solve Function.call 0 bound = .ok true found ∧
      x.bind Function.call .unit found = .ok true again ∧
      link.solve Function.call 0 again = .ok true w' ∧ w'.value y = some (.list [.unit]) ∧
      link.solve Function.call 0 w' = .ok false w'' ∧ w''.value y = none := by
  intro x y link
  obtain ⟨bound, found, again, ran₁, ran₂, ran₃, held⟩ := rebinding_calls
  have fires {past : List LinkEvent} {w : World Function Unit}
      (run : Linkage Function.call 0 x y (.total .list) past w) :
      FiresWhenDue Function.call 0 0 x y (.total .list) (fun v => .list [v]) past w :=
    fires_once_per_binding Function.quiet (fun _ w => ⟨w, rfl⟩) (by decide) run
  have start : Linkage Function.call 0 x y (.total .list) [] ({ client := () } : World Function Unit) :=
    .start (.blank link ()) rfl rfl
  have rebound := ((start.set_ok ran₁).solve_ok ran₂).set_ok ran₃
  obtain ⟨w', ran, target, source⟩ := (fires rebound).bound .unit held
  have held' : w'.value x = some .unit := (congrArg Cell.value source).trans held
  obtain ⟨w'', ran', target', -⟩ := (fires (rebound.solve_ok ran)).bound .unit held'
  exact ⟨bound, found, again, w', w'', ran₁, ran₂, ran₃, ran, target, ran', target'⟩

end Relation
end RelationSearch
