import RelationSearch.Proofs.Backlog

/-! # Every answer is paid for

A call of `solve` that answers `true` takes at least one answer off those that the relation has left
(`Spends`), and a call that is interrupted is so for a reason: a variable has no value, or a callback
was interrupted (`Caller.Raises`).  Both are proved of the leaves here (`Spends.of_isLeaf`).
-/
namespace RelationSearch

open Act RelationSearch.Relation

variable {κ σ α β : Type} {call : Caller κ σ} {fuel n : Nat} {root r s l p : Relation κ} {x : Var}
variable {w w' : World κ σ}

/-! ## Interruptions -/

/-- What a search may be interrupted with: that a variable has no value, and what callbacks are
interrupted with. -/
def Caller.Raises (call : Caller κ σ) (why : Interrupt) : Prop :=
  (∃ x relation, why = .unbound x relation) ∨ ∃ k args w w', call k args w = .error why w'

/-- A function does not run out of fuel. -/
theorem Function.not_raises_outOfFuel : ¬ Caller.Raises (Function.call (σ := σ)) .outOfFuel := by
  rintro (⟨x, relation, same⟩ | ⟨f, args, w, w', ran⟩)
  · cases same
  · rw [Function.call_eq] at ran
    cases result : f args with
    | ok v => rw [result] at ran; cases ran
    | error message => rw [result] at ran; cases ran

/-- The computation is interrupted with nothing else than what the caller raises. -/
def Act.RaisesLike (call : Caller κ σ) (act : Act κ σ α) : Prop :=
  ∀ w why w', act w = .error why w' → call.Raises why

namespace Act.RaisesLike

theorem pure (a : α) : RaisesLike call (Pure.pure a : Act κ σ α) := fun _ _ _ => nofun

theorem throw {why : Interrupt} (h : call.Raises why) :
    RaisesLike call (MonadExcept.throw why : Act κ σ α) := by
  rintro w _ w' ⟨⟩
  exact h

theorem bind {act : Act κ σ α} {next : α → Act κ σ β} (h : RaisesLike call act)
    (hn : ∀ a, RaisesLike call (next a)) : RaisesLike call (act >>= next) := by
  intro w why w'
  rw [bind_apply]
  cases ran : act w with
  | ok a w₁ => exact hn a w₁ why w'
  | error reason w₁ =>
    rintro ⟨⟩
    exact h w why w' ran

theorem get_bind {next : World κ σ → Act κ σ β} (hn : ∀ w, RaisesLike call (next w)) :
    RaisesLike call (get >>= next) :=
  .bind (fun _ _ _ => nofun) hn

theorem modify (f : World κ σ → World κ σ) : RaisesLike call (modify f : Act κ σ PUnit) :=
  fun _ _ _ => nofun

theorem progress (n : Nat) : RaisesLike call (Act.progress n) := fun _ _ _ => nofun

theorem value (x : Var) : RaisesLike call (Act.value x) := fun _ _ _ => nofun

theorem ite {test : Act κ σ Bool} {yes no : Act κ σ β} (h : RaisesLike call test)
    (hy : RaisesLike call yes) (hn : RaisesLike call no) :
    RaisesLike call (do if ← test then yes else no) :=
  .bind h fun b => by cases b <;> assumption

theorem callback (k : κ) (args : List Value) : RaisesLike call (call k args) :=
  fun w _ w' ran => .inr ⟨k, args, w, w', ran⟩

theorem holds (test : κ) (args : List Value) : RaisesLike call (call.holds test args) :=
  .bind (.callback test args) fun _ => .pure _

theorem comparison (c : Comparison κ) (u v : Value) : RaisesLike call (c.holds call u v) := by
  cases c with
  | equality => exact .pure _
  | custom test => exact .holds _ _

theorem acceptedBy (v : Value) (watches : List (Watch κ)) :
    RaisesLike call (acceptedBy call v watches) := by
  induction watches with
  | nil => exact .pure _
  | cons watch rest ih =>
    refine .ite (.bind (.value _) fun held => ?_) ih (.pure _)
    split
    · exact .pure _
    · split <;> exact .comparison _ _ _

theorem offered (x : Var) (v : Value) : RaisesLike call (x.bind call v) :=
  .get_bind fun _ => .ite (.acceptedBy _ _) (.bind (.modify _) fun _ => .pure _)
    (.bind (.modify _) fun _ => .pure _)

theorem offer (x : Var) (values : List Value) : RaisesLike call (offer call n x values) := by
  induction values with
  | nil => exact .bind (.modify _) fun _ => .bind (.modify _) fun _ => .pure _
  | cons v rest ih => exact .bind (.modify _) fun _ => .ite (.offered x v) (.pure _) ih

theorem releaseTarget (y : Var) : RaisesLike call (releaseTarget n y) := by
  refine .bind (.progress n) fun p => ?_
  split
  · exact .bind (.modify _) fun _ => .modify _
  · exact .pure _

theorem applyConversion (y : Var) (f : κ) (v : Value) (generation : Nat) (owns : Bool) :
    RaisesLike call (applyConversion call n y f v generation owns) := by
  refine .bind (.modify _) fun _ => .bind (.callback f [v]) fun result => .bind (.value y) fun held => ?_
  split
  · exact .pure _
  · exact .ite (.offered y result) (.bind (.modify _) fun _ => .pure _)
      (.bind (.releaseTarget y) fun _ => .pure _)

theorem advanceConvert (r : Relation κ) (x y : Var) (f : κ) :
    RaisesLike call (advanceConvert call r n x y f) := by
  refine .get_bind fun w => ?_
  dsimp only
  split
  · exact .throw (.inl ⟨_, _, rfl⟩)
  · refine .bind (.progress n) fun p => ?_
    split
    · split
      · exact .bind (.releaseTarget y) fun _ => .pure _
      · exact .applyConversion _ _ _ _ _
    · exact .applyConversion _ _ _ _ _

theorem deferOperand (value : Option Value) (x other : Var) (c : Comparison κ) (onLeft : Bool) :
    RaisesLike call (deferOperand value x other c onLeft) := by
  cases value with
  | some v => exact .pure _
  | none => exact .bind (fun _ _ _ => nofun) fun _ => .pure _

theorem advanceCompare (x y : Var) (c : Comparison κ) :
    RaisesLike call (advanceCompare call n x y c) := by
  refine .bind (.progress n) fun p => ?_
  split
  · refine .bind (fun w why w' => ?_) fun _ => .bind (.modify _) fun _ => .pure _
    rw [dropWatches_apply]
    exact nofun
  · refine .bind (.modify _) fun _ => .bind (.value x) fun left => .bind (.value y) fun right => ?_
    split
    · exact .comparison _ _ _
    · exact .bind (.deferOperand _ _ _ _ _) fun _ => .bind (.deferOperand _ _ _ _ _) fun _ =>
        .bind (.modify _) fun _ => .pure _

theorem advancePredicate (r : Relation κ) (xs : List Var) (f : κ) :
    RaisesLike call (advancePredicate call r n xs f) := by
  refine .bind (.progress n) fun p => ?_
  split
  · exact .pure _
  · refine .get_bind fun w => ?_
    split
    · exact .throw (.inl ⟨_, _, rfl⟩)
    · exact .bind (.modify _) fun _ => .holds _ _

theorem advanceDomain (x : Var) (values : List Value) :
    RaisesLike call (advanceDomain call n x values) := by
  refine .bind (.progress n) fun p => ?_
  split
  · refine .bind (.value x) fun held => ?_
    split
    · exact .bind (.modify _) fun _ => .pure _
    · exact .offer _ _
  · exact .offer _ _
  · exact .pure _

end Act.RaisesLike

/-! ## What a call costs -/

/-- Fewer answers than `bound` are left after an answer, and only the caller interrupts. -/
structure Spends (call : Caller κ σ) (bound : Nat) (r : Relation κ)
    (result : EStateM.Result Interrupt (World κ σ) Bool) : Prop where
  fewer : ∀ w', result = .ok true w' → r.remaining w' < bound
  raised : ∀ why w', result = .error why w' → call.Raises why

namespace Spends

variable {bound bound' : Nat} {result : EStateM.Result Interrupt (World κ σ) Bool}

theorem mono (h : Spends call bound r result) (le : bound ≤ bound') : Spends call bound' r result :=
  ⟨fun w' answered => Nat.lt_of_lt_of_le (h.fewer w' answered) le, h.raised⟩

theorem ended : Spends call bound r (.ok false w) := ⟨fun _ => nofun, fun _ _ => nofun⟩

theorem found (h : r.remaining w < bound) : Spends call bound r (.ok true w) := by
  refine ⟨?_, fun _ _ => nofun⟩
  rintro w' ⟨⟩
  exact h

theorem interrupted {why : Interrupt} (h : call.Raises why) :
    Spends call bound r (.error why w) := by
  refine ⟨fun _ => nofun, ?_⟩
  rintro _ w' ⟨⟩
  exact h

/-- A call costs what its search costs. -/
theorem answering {search : Act κ σ Bool} (idle : (w.node r.node).busy = false)
    (h : Spends call bound r (search (w.setBusy r.node true))) :
    Spends call bound r (answering r search w) := by
  rw [answering_of_idle idle]
  generalize search (w.setBusy r.node true) = result at h
  cases result with
  | ok answer w₁ =>
    refine ⟨?_, fun _ _ => nofun⟩
    rintro w' ⟨⟩
    rw [remaining_congr (World.cell_concluded w₁ r true) fun _ _ => World.progress_concluded ..]
    exact h.fewer w₁ rfl
  | error why w₁ => exact interrupted (h.raised why w₁ rfl)

end Spends

/-! ## Leaves -/

section Domain

variable {values rest : List Value}

/-- A value that is taken is one that is not left any more. -/
theorem offer_spends (quiet : call.Quiet) (took : offer call n x rest w = .ok true w') :
    ∃ left, (w'.node n).progress = .binding left ∧ left.length < rest.length := by
  induction rest generalizing w with
  | nil =>
    simp only [offer, bind_apply, setProgress_apply, unbind_apply, pure_apply] at took
    cases took
  | cons v rest ih =>
    rw [offer, bind_apply, setProgress_apply] at took
    simp only [bind_apply] at took
    obtain ⟨w₁, same, ran | ran | ⟨why, ran⟩⟩ := quiet.bind_cases x v (w.noted n (.binding rest))
    · rw [ran] at took
      cases took
      refine ⟨rest, ?_, Nat.lt_succ_self _⟩
      rw [World.node_modifyCell, same.node]
      exact World.progress_noted ..
    · rw [ran] at took
      obtain ⟨left, progress, shorter⟩ := ih took
      exact ⟨left, progress, Nat.lt_succ_of_lt shorter⟩
    · rw [ran] at took
      cases took

theorem domain_spends (quiet : call.Quiet) :
    Spends call ((Relation.domain n x values).remaining w) (.domain n x values)
      (advanceDomain call n x values w) := by
  refine ⟨fun w' answered => ?_, Act.RaisesLike.advanceDomain x values w⟩
  rw [advanceDomain, bind_apply, progress_apply] at answered
  rw [remaining, remaining, backlog, backlog]
  cases progress : (w.node n).progress with
  | fresh =>
    simp only [progress, bind_apply, value_apply] at answered
    cases held : w.value x with
    | some v =>
      simp only [held, bind_apply, setProgress_apply, pure_apply] at answered
      obtain rfl := (EStateM.Result.ok.inj answered).2
      rw [World.progress_noted]
      exact Nat.lt_of_lt_of_le Nat.zero_lt_one (Nat.le_max_left ..)
    | none =>
      simp only [held] at answered
      obtain ⟨left, after, shorter⟩ := offer_spends quiet answered
      rw [after]
      exact Nat.lt_of_lt_of_le shorter (Nat.le_max_right ..)
  | binding rest =>
    simp only [progress] at answered
    obtain ⟨left, after, shorter⟩ := offer_spends quiet answered
    rw [after]
    exact shorter
  | _ => simp [progress] at answered

end Domain

section Convert

variable {y : Var} {f : κ}

/-- A conversion that answers has noted the generation of its source, which it does not change. -/
theorem applyConversion_notes (quiet : call.Quiet) {v : Value} (bound : w.value x = some v)
    {owns : Bool} (apart : owns = true → x.id ≠ y.id) {generation : Nat}
    (answered : applyConversion call n y f v generation owns w = .ok true w') :
    ∃ owns', (w'.node n).progress = .applied generation owns' ∧ w'.cell x = w.cell x := by
  have asked := quiet f [v] (w.noted n (.applied generation owns))
  rw [applyConversion, bind_apply, setProgress_apply] at answered
  simp only [bind_apply] at answered
  cases ran : call f [v] (w.noted n (.applied generation owns)) with
  | error why w₁ => rw [ran] at answered; cases answered
  | ok result w₁ =>
    have same := final_of_ok ran ▸ asked
    have progress : (w₁.node n).progress = .applied generation owns := by
      rw [same.node]
      exact World.progress_noted ..
    have source : w₁.cell x = w.cell x := same.cell x
    simp only [ran, value_apply] at answered
    -- What remains if the target is not just compared.
    have taken (apart : x.id ≠ y.id) (answered : (do
        if ← y.bind call result then
          Act.setProgress n (.applied generation true)
          return true
        else
          releaseTarget n y
          return false : Act κ σ Bool) w₁ = .ok true w') :
        ∃ owns', (w'.node n).progress = .applied generation owns' ∧ w'.cell x = w.cell x := by
      rw [bind_apply] at answered
      obtain ⟨w₂, same₂, took | refused | ⟨why, failed⟩⟩ := quiet.bind_cases y result w₁
      · simp only [took, if_true, bind_apply, setProgress_apply, pure_apply] at answered
        cases answered
        refine ⟨true, World.progress_noted .., ?_⟩
        rw [World.cell_noted, World.cell_modifyCell_of_ne _ _ apart.symm, same₂.cell, source]
      · obtain ⟨_, w₃, -, ended⟩ := bind_ok (refused ▸ answered)
        cases ended
      · rw [failed] at answered
        cases answered
    cases owns with
    | true => exact taken (apart rfl) answered
    | false =>
      cases held : w₁.value y with
      | none =>
        rw [held] at answered
        refine taken (fun e => ?_) answered
        have here : w₁.value x = w₁.value y := congrArg Cell.value (cell_congr w₁ e)
        rw [held, World.value, source, ← World.value, bound] at here
        cases here
      | some u =>
        rw [held] at answered
        obtain rfl := (EStateM.Result.ok.inj answered).2
        exact ⟨false, progress, source⟩

theorem convert_spends (quiet : call.Quiet)
    (proper : (Relation.convert n x y f).Proper (w.node n).progress) :
    Spends call ((Relation.convert n x y f).remaining w) (.convert n x y f)
      (advanceConvert call r n x y f w) := by
  refine ⟨fun w' answered => ?_, Act.RaisesLike.advanceConvert r x y f w⟩
  -- Once it has answered, nothing is left while its source stays as it is.
  have spent {v : Value} (bound : w.value x = some v) {owns : Bool}
      (apart : owns = true → x.id ≠ y.id)
      (answered : applyConversion call n y f v (w.cell x).generation owns w = .ok true w') :
      (Relation.convert n x y f).remaining w' = 0 := by
    obtain ⟨owns', progress, source⟩ := applyConversion_notes quiet bound apart answered
    rw [remaining, backlog, progress]
    exact if_neg fun h => h.2.2 (congrArg Cell.generation source)
  rw [advanceConvert, bind_apply, get_apply] at answered
  dsimp only at answered
  cases bound : (w.cell x).value with
  | none => rw [bound] at answered; cases answered
  | some v =>
    simp only [bound, bind_apply, progress_apply] at answered
    cases progress : (w.node n).progress with
    | applied generation owns =>
      simp only [progress] at answered
      by_cases same : generation = (w.cell x).generation
      · simp only [if_pos same] at answered
        obtain ⟨_, w₁, -, ended⟩ := bind_ok answered
        cases ended
      · simp only [if_neg same] at answered
        have apart : owns = true → x.id ≠ y.id := by
          intro own
          subst own
          rw [progress] at proper
          exact proper
        have shown : (w.value x).isSome := by rw [World.value, bound]; rfl
        have renewed : ¬ False ∧ (w.value x).isSome ∧ (w.cell x).generation ≠ generation :=
          ⟨id, shown, Ne.symm same⟩
        rw [spent bound apart answered, remaining, backlog, progress]
        exact Nat.lt_of_lt_of_eq Nat.zero_lt_one (if_pos renewed).symm
    | _ =>
      simp only [progress] at answered
      have apart (own : false = true) : x.id ≠ y.id := absurd own Bool.false_ne_true
      rw [spent bound apart answered, remaining, backlog, progress]
      exact Nat.zero_lt_one

end Convert

section Turns

variable {y z : Var} {c : Comparison κ}

/-- The turn of a comparison, or of a predicate, uses it up. -/
theorem compare_spends (quiet : call.Quiet) :
    Spends call ((Relation.compare n y z c).remaining w) (.compare n y z c)
      (advanceCompare call n y z c w) := by
  refine ⟨fun w' answered => ?_, Act.RaisesLike.advanceCompare y z c w⟩
  have fresh : ∀ entries, (w.node n).progress ≠ .fired entries := by
    intro entries fired
    rw [advanceCompare_of_fired fired] at answered
    cases answered
  have after : ∃ entries, (w'.node n).progress = .fired entries := by
    rw [advanceCompare_of_unfired fresh] at answered
    split at answered
    · have same := (quiet.comparison c _ _).of_ok answered
      exact ⟨[], (congrArg Node.progress (same.node n)).trans (World.progress_noted ..)⟩
    · cases answered
      exact ⟨_, World.progress_noted ..⟩
  obtain ⟨entries, after⟩ := after
  rw [remaining, remaining, backlog, backlog, after]
  cases progress : (w.node n).progress with
  | fired entries => exact absurd progress (fresh entries)
  | _ => exact Nat.zero_lt_one

theorem predicate_spends (quiet : call.Quiet) {xs : List Var} {f : κ} :
    Spends call ((Relation.predicate n xs f).remaining w) (.predicate n xs f)
      (advancePredicate call r n xs f w) := by
  refine ⟨fun w' answered => ?_, Act.RaisesLike.advancePredicate r xs f w⟩
  rw [advancePredicate, bind_apply, progress_apply] at answered
  cases progress : (w.node n).progress with
  | fired entries =>
    simp only [progress] at answered
    cases answered
  | _ =>
    simp only [progress, bind_apply, get_apply] at answered
    cases held : w.valuesOf xs with
    | error x => simp only [held] at answered; cases answered
    | ok values =>
      simp only [held, bind_apply, setProgress_apply] at answered
      have same := (quiet.holds f values).of_ok answered
      have after : (w'.node n).progress = .fired [] :=
        (congrArg Node.progress (same.node n)).trans (World.progress_noted ..)
      rw [remaining, remaining, backlog, backlog, progress, after]
      exact Nat.zero_lt_one

theorem always_spends : Spends call ((Relation.always n).remaining w) (.always n)
    (advanceAlways n w : EStateM.Result Interrupt (World κ σ) Bool) := by
  rw [advanceAlways, bind_apply, progress_apply]
  cases progress : (w.node n).progress with
  | fired entries => exact .ended
  | _ =>
    refine .found ?_
    change (Relation.always n).remaining (w.noted n (.fired [])) < _
    rw [remaining, remaining, backlog, backlog, progress, World.progress_noted]
    exact Nat.zero_lt_one

end Turns

/-- **A leaf pays for its answers**, and comes back with any fuel. -/
theorem Spends.of_isLeaf (quiet : call.Quiet) (leaf : s.IsLeaf)
    (poised : s.Poised w) (idle : (w.node s.node).busy = false) :
    Spends call (s.remaining w) s (s.solve call fuel w) := by
  have same : s.remaining (w.setBusy s.node true) ≤ s.remaining w :=
    Nat.le_of_eq (remaining_congr (fun _ => rfl) fun _ _ => World.progress_setBusy ..)
  cases s with
  | domain n x values => exact .answering idle ((domain_spends quiet).mono same)
  | convert n x y f =>
    have proper : (Relation.convert n x y f).Proper ((w.setBusy n true).node n).progress := by
      rw [World.progress_setBusy]
      exact poised _ (mem_subs_self _)
    exact .answering idle ((convert_spends quiet proper).mono same)
  | compare n y z c => exact .answering idle ((compare_spends quiet).mono same)
  | predicate n xs f => exact .answering idle ((predicate_spends quiet).mono same)
  | always n => exact .answering idle (always_spends.mono same)
  | never n => exact .answering idle .ended
  | and | or => cases leaf

end RelationSearch
