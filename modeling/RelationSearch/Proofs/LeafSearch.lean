import RelationSearch.Proofs.Answers
import RelationSearch.Proofs.Resumption
import RelationSearch.Proofs.Watches

/-! # The leaves hold their dialogues

For each kind of leaf, an invariant of its search: what the leaf has noted at its node, what it has done
to the world in which it was started, and what it has left of its dialogue.
`Relation.Converses.of_search` turns each into the statement that the leaf, started ready in a world
that shows an environment, holds its dialogue there.

The watches on a variable are read only through the pending comparisons that the environment lists for
it (`Follows.acceptedBy`, `Follows.offered`).
-/
namespace RelationSearch

open Act RelationSearch.Relation

variable {κ σ : Type} {fuel : Nat} {reply : Replies κ σ}
variable {start w w' : World κ σ} {env : Env κ} {d : Dialogue κ}

/-! ## Watches -/

namespace Follows

variable {Next : Dialogue κ → World κ σ → Prop} {Done : World κ σ → Prop} {yes no : Dialogue κ}
variable {next : Bool → Act κ σ Bool}

/-- A watch is asked as its duty says. -/
theorem accepts {v : Value} {watch : Watch κ} {duties : List (Duty κ)}
    (values : ∀ x, w.value x = env.value x.id)
    (passes : ∀ client, Follows reply start Next Done (env.consult v yes no duties) client
      (next true (w.withClient client)))
    (refused : ∀ client, Follows reply start Next Done no client
      (next false (w.withClient client))) :
    Follows reply start Next Done (env.consult v yes no (watch.duty :: duties)) w.client
      ((watch.accepts reply.call v >>= next) w) := by
  rw [Watch.accepts, Watch.duty, Env.consult, bind_assoc, bind_apply, value_apply, values]
  dsimp only
  cases env.value watch.other.id with
  | none => exact passes w.client
  | some held =>
    by_cases side : watch.onLeft = true
    · simp only [if_pos side]
      exact compare passes refused
    · simp only [if_neg side]
      exact compare passes refused

/-- The watches of a variable are asked as the pending comparisons are. -/
theorem acceptedBy {v : Value} (values : ∀ x, w.value x = env.value x.id) (watches : List (Watch κ))
    (passes : ∀ client, Follows reply start Next Done yes client (next true (w.withClient client)))
    (refused : ∀ client,
      Follows reply start Next Done no client (next false (w.withClient client))) :
    Follows reply start Next Done (env.consult v yes no (watches.map Watch.duty)) w.client
      ((acceptedBy reply.call v watches >>= next) w) := by
  induction watches generalizing w with
  | nil => exact passes w.client
  | cons watch rest ih =>
    rw [RelationSearch.acceptedBy, bind_assoc]
    exact accepts values (fun client => ih (w := w.withClient client) values passes refused) refused

/-- A variable takes an offered value if the pending comparisons allow it. -/
theorem offered {x : Var} {v : Value} (values : ∀ x, w.value x = env.value x.id)
    (watches : (w.cell x).watches.map Watch.duty = env.duties x)
    (taken : ∀ client, Follows reply start Next Done yes client
      (next true ((w.withClient client).modifyCell x (·.put v))))
    (refused : ∀ client, Follows reply start Next Done no client
      (next false ((w.withClient client).record fun _ => .rejected x.name v.image))) :
    Follows reply start Next Done (env.consult v yes no (env.duties x)) w.client
      ((x.bind reply.call v >>= next) w) := by
  rw [← watches, Var.bind, bind_assoc, bind_apply, get_apply]
  dsimp only
  rw [bind_assoc]
  exact acceptedBy values _ taken refused

end Follows

/-! ## What worlds come to show -/

/-- A world whose variable is bound shows the environment with the variable bound. -/
theorem World.Shows.put (h : w.Shows env) (x : Var) (v : Value) :
    (w.modifyCell x (·.put v)).Shows (env.bind x v) where
  value y := by
    rw [World.value, World.cell_modifyCell]
    split
    · rename_i hy
      simp [Env.bind, hy]
    · rename_i hy
      simp only [Env.bind, if_neg (Ne.symm hy)]
      exact h.value y
  watches y free := by
    rw [World.value, World.cell_modifyCell] at free
    rw [World.cell_modifyCell]
    split at free
    · cases free
    · rename_i hy
      rw [if_neg hy]
      exact h.watches y free
  numbered := h.numbered.modifyCell x (h.numbered x)

/-- A world in which a comparison was left to its unbound operands shows that it is pending. -/
theorem World.Shows.defer (h : w.Shows env) (x y : Var) (c : Comparison κ) :
    ((w.deferred x y c true).deferred y x c false).Shows (env.defer x y c) where
  value z := by
    rw [World.value_deferred, World.value_deferred]
    exact h.value z
  watches z free := by
    rw [World.value_deferred] at free
    have free' := free
    rw [World.value_deferred] at free'
    rw [World.duties_deferred _ _ _ _ _ free, World.duties_deferred _ _ _ _ _ free',
      h.watches z free', List.append_assoc]
    simp [Env.duties, Env.defer, Pending.duties]
  numbered := (h.numbered.deferred x y c true).deferred y x c false

theorem World.Shows.valuesOf (h : w.Shows env) (xs : List Var) : w.valuesOf xs = env.valuesOf xs := by
  induction xs with
  | nil => rfl
  | cons x xs ih =>
    cases held : env.value x.id with
    | none => simp only [World.valuesOf, Env.valuesOf, h.value, held]
    | some v => simp only [World.valuesOf, Env.valuesOf, h.value, held, ih]

/-! ## Domains -/

namespace Relation

variable {n : Nat} {x y : Var} {values : List Value} {f : κ} {c : Comparison κ}

/-- What a domain that is offering values has done, and the values it has not offered yet. -/
structure Offering (start : World κ σ) (n : Nat) (x : Var) (env : Env κ) (rest : List Value)
    (w : World κ σ) : Prop where
  progress : (w.node n).progress = .binding rest
  restored : RestoredBut x start w
  free : start.value x = none
  shows : w.Shows env
  watches : (w.cell x).watches.map Watch.duty = env.duties x

theorem Offering.congr {rest : List Value} (h : Offering start n x env rest w)
    (restored : Restored w w') (progress : (w'.node n).progress = (w.node n).progress) :
    Offering start n x env rest w' where
  progress := progress.trans h.progress
  restored := h.restored.trans (restored.but x)
  free := h.free
  shows := h.shows.of_restored restored
  watches := by rw [(restored x).watches]; exact h.watches

/-- The invariant of a domain. -/
inductive DomainLeft (start : World κ σ) (n : Nat) (x : Var) (values : List Value) (env : Env κ) :
    Dialogue κ → World κ σ → Prop
  | fresh {w : World κ σ} (progress : (w.node n).progress = .fresh) (restored : Restored start w) :
    DomainLeft start n x values env ((Relation.domain n x values).dialogue env) w
  | checked {w : World κ σ} (progress : (w.node n).progress = .checked)
      (restored : Restored start w) : DomainLeft start n x values env .ended w
  | offering {w : World κ σ} {env' : Env κ} {rest : List Value}
      (offering : Offering start n x env' rest w) :
    DomainLeft start n x values env (env'.propose x rest) w

theorem DomainLeft.congr (h : DomainLeft start n x values env d w)
    (same : (Relation.domain n x values).Resembles w w') :
    DomainLeft start n x values env d w' := by
  cases h with
  | fresh progress restored =>
    exact .fresh (same.progress.trans progress) (restored.trans same.restored)
  | checked progress restored =>
    exact .checked (same.progress.trans progress) (restored.trans same.restored)
  | offering h => exact .offering (h.congr same.restored same.progress)

theorem offer_follows {rest : List Value} {env' : Env κ}
    (restored : RestoredBut x start w) (free : start.value x = none) (initial : start.Shows env)
    (shows : w.Shows env') (watches : (w.cell x).watches.map Watch.duty = env'.duties x) :
    Follows reply start (DomainLeft start n x values env)
      (fun w => (Relation.domain n x values).AtRest w ∧ DomainLeft start n x values env .ended w)
      (env'.propose x rest) w.client (offer reply.call n x rest w) := by
  -- The values before `rest` have been refused, and a refusal changes nothing that a variable shows.
  induction rest generalizing w with
  | nil =>
    have back : Restored start ((w.noted n (.binding [])).modifyCell x Cell.clear) :=
      (restored.trans (restoredBut_clear w x)).restored free (value_modifyCell_clear w x)
    have shows := initial.of_restored back
    have unbound := value_modifyCell_clear (w.noted n (.binding [])) x
    simp only [offer, Env.propose, bind_apply, setProgress_apply, unbind_apply, pure_apply]
    have offering : Offering start n x env [] ((w.noted n (.binding [])).modifyCell x Cell.clear) :=
      ⟨World.progress_noted .., back.but x, free, shows, shows.watches x unbound⟩
    exact .ended rfl back ⟨fun _ _ => unbound, .offering offering⟩
  | cons v rest ih =>
    have noted := Restored.noted w n (.binding rest)
    have shown := shows.of_restored noted
    rw [offer, Env.propose, bind_apply, setProgress_apply]
    refine Follows.offered (w := w.noted n (.binding rest)) shown.value watches (fun client => ?_)
      fun client => ?_
    · have taken := ((noted.trans (.withClient _ client)).but x).trans (restoredBut_put _ x v)
      have here := (shown.withClient client).put x v
      refine .found rfl here (.offering ⟨?_, restored.trans taken, free, here, ?_⟩)
      · exact World.progress_noted ..
      · rw [taken.watches]
        exact watches
    · have refused := (noted.trans (.withClient _ client)).trans
        (.record _ fun _ => .rejected x.name v.image)
      have goesOn := ih (restored.trans (refused.but x)) (shows.of_restored refused)
        (by rw [(refused x).watches]; exact watches)
      rw [World.client_record] at goesOn
      exact goesOn

theorem DomainLeft.step (initial : start.Shows env) (h : DomainLeft start n x values env d w) :
    Follows reply start (DomainLeft start n x values env)
      (fun w => (Relation.domain n x values).AtRest w ∧ DomainLeft start n x values env .ended w)
      d w.client (advanceDomain reply.call n x values w) := by
  rw [advanceDomain, bind_apply, progress_apply]
  cases h with
  | fresh progress restored =>
    have shows := initial.of_restored restored
    simp only [progress, bind_apply, value_apply, shows.value, dialogue]
    cases held : env.value x.id with
    | some v =>
      have noted := restored.trans (.noted w n .checked)
      have checked : ((w.noted n .checked).node n).progress = .checked := World.progress_noted ..
      refine .given _ (initial.of_restored noted) noted (.checked checked noted)
        ⟨fun rest offering => ?_, .checked checked noted⟩
      injection checked.symm.trans offering
    | none =>
      have free : start.value x = none := (initial.value x).trans held
      exact offer_follows (restored.but x) free initial shows
        (shows.watches x ((shows.value x).trans held))
  | checked progress restored =>
    simp only [progress]
    refine .ended rfl restored ⟨fun rest offering => ?_, .checked progress restored⟩
    injection progress.symm.trans offering
  | offering h =>
    simp only [h.progress]
    exact offer_follows h.restored h.free initial h.shows h.watches

theorem domain_converses (ready : (Relation.domain n x values).Ready w) (shows : w.Shows env) :
    (Relation.domain n x values).Converses reply fuel w
      ((Relation.domain n x values).dialogue env) w := by
  obtain ⟨fresh, idle⟩ := ready n (List.mem_singleton.mpr rfl)
  exact .of_leaf (Q := DomainLeft w n x values env) rfl rfl (fun _ _ _ h => h.congr)
    (fun _ _ h => h.step shows) idle (.fresh fresh (.refl w))

/-! ## Conversions -/

/-- The invariant of a conversion.  Once it has run it notes the generation of its source, which keeps
that generation for as long as the conversion is not rewound. -/
inductive ConvertLeft (start : World κ σ) (n : Nat) (x y : Var) (f : κ) (env : Env κ) :
    Dialogue κ → World κ σ → Prop
  | fresh {w : World κ σ} (progress : (w.node n).progress = .fresh) (restored : Restored start w) :
    ConvertLeft start n x y f env ((Relation.convert n x y f).dialogue env) w
  | owning {w : World κ σ} (progress : (w.node n).progress =
        .applied (w.cell x).generation true) (bound : (w.value x).isSome) (apart : x.id ≠ y.id)
      (restored : RestoredBut y start w) (free : start.value y = none) :
    ConvertLeft start n x y f env .ended w
  | spent {w : World κ σ} (progress : (w.node n).progress =
        .applied (w.cell x).generation false) (bound : (w.value x).isSome)
      (restored : Restored start w) : ConvertLeft start n x y f env .ended w

theorem ConvertLeft.congr (h : ConvertLeft start n x y f env d w)
    (same : (Relation.convert n x y f).Resembles w w') :
    ConvertLeft start n x y f env d w' := by
  have value := same.restored.value x
  cases h with
  | fresh progress restored =>
    exact .fresh (same.progress.trans progress) (restored.trans same.restored)
  | owning progress bound apart restored free =>
    refine .owning ?_ (value ▸ bound) apart (restored.trans (same.restored.but y)) free
    rw [(same.restored x).generation bound]
    exact same.progress.trans progress
  | spent progress bound restored =>
    refine .spent ?_ (value ▸ bound) (restored.trans same.restored)
    rw [(same.restored x).generation bound]
    exact same.progress.trans progress

theorem ConvertLeft.atRest {generation : Nat}
    (progress : (w.node n).progress = .applied generation false) :
    (Relation.convert n x y f).AtRest w :=
  fun _ h => nomatch progress.symm.trans h

/-- A conversion offers its result to a target that is unbound. -/
theorem offerResult_follows {result : Value} (shows : w.Shows env) (restored : Restored start w)
    (progress : (w.node n).progress = .applied (w.cell x).generation false)
    (bound : (w.value x).isSome) (free : w.value y = none) :
    Follows reply start (ConvertLeft start n x y f env)
      (fun w => (Relation.convert n x y f).AtRest w ∧ ConvertLeft start n x y f env .ended w)
      (env.propose y [result]) w.client
      ((do
        if ← y.bind reply.call result then
          Act.setProgress n (.applied (w.cell x).generation true)
          return true
        else
          releaseTarget n y
          return false : Act κ σ Bool) w) := by
  -- The source is bound and the target is not.
  have apart : x.id ≠ y.id := by
    intro h
    rw [World.value, cell_congr w h] at bound
    rw [show (w.cell y).value = none from free] at bound
    cases bound
  refine Follows.offered shows.value (shows.watches y free) (fun client => ?_) fun client => ?_
  · have source : ((w.withClient client).modifyCell y (·.put result)).cell x = w.cell x :=
      World.cell_modifyCell_of_ne _ _ apart.symm
    have taken := ((Restored.withClient w client).but y).trans (restoredBut_put _ y result)
    simp only [if_true, bind_apply, setProgress_apply, pure_apply]
    refine .found rfl (((shows.withClient client).put y result).of_restored (.noted _ n _))
      (.owning ?_ ?_ apart ((restored.but y).trans (taken.trans ((Restored.noted _ n _).but y)))
        ((restored.value y).symm.trans free))
    · rw [World.progress_noted, World.cell_noted, source]
    · rw [World.value_noted, World.value, source]
      exact bound
  · have refused := (Restored.withClient w client).trans
      (.record _ fun _ => .rejected y.name result.image)
    have spent : (((w.withClient client).record fun _ => .rejected y.name result.image).node n).progress =
        .applied (w.cell x).generation false :=
      (congrArg Node.progress (World.node_record _ _ n)).trans progress
    have rest := ConvertLeft.atRest (x := x) (y := y) (f := f) spent
    simp only [Bool.false_eq_true, if_false, bind_apply, releaseTarget_of_spent rest, pure_apply]
    refine .ended (World.client_record ..) (restored.trans refused) ⟨ConvertLeft.atRest spent,
      .spent ?_ ?_ (restored.trans refused)⟩
    · rw [spent, World.cell_record]
      rfl
    · rw [refused.value]
      exact bound

/-- The first run of a conversion. -/
theorem applyConversion_follows {v : Value} (shows : w.Shows env) (restored : Restored start w)
    (held : w.value x = some v) :
    Follows reply start (ConvertLeft start n x y f env)
      (fun w => (Relation.convert n x y f).AtRest w ∧ ConvertLeft start n x y f env .ended w)
      ((Relation.convert n x y f).dialogue env) w.client
      (applyConversion reply.call n y f v (w.cell x).generation false w) := by
  have bound : (w.value x).isSome := by rw [held]; rfl
  have source : env.value x.id = some v := (shows.value x).symm.trans held
  simp only [applyConversion, bind_apply, setProgress_apply, Replies.call, dialogue, source]
  refine .asked ?_
  rw [show (w.noted n _).client = w.client from rfl]
  rcases reply f [v] w.client with ⟨message | result, client⟩
  · exact .interrupted rfl
  · have noted := (Restored.noted w n (.applied (w.cell x).generation false)).trans
      (.withClient _ client)
    have shown := shows.of_restored noted
    have progress := World.progress_noted w n (.applied (w.cell x).generation false)
    have target : (w.noted n (.applied (w.cell x).generation false)).value y = env.value y.id :=
      shows.value y
    simp only [value_apply]
    rw [show ((w.noted n _).withClient client).value y = env.value y.id from target]
    cases target : env.value y.id with
    | some u =>
      have spent : ConvertLeft start n x y f env .ended
          ((w.noted n (.applied (w.cell x).generation false)).withClient client) :=
        .spent progress bound (restored.trans noted)
      exact .given (u == result) shown (restored.trans noted) spent
        ⟨ConvertLeft.atRest progress, spent⟩
    | none =>
      exact offerResult_follows shown (restored.trans noted) progress bound
        ((shows.value y).trans target)

theorem ConvertLeft.step (initial : start.Shows env) (h : ConvertLeft start n x y f env d w) :
    Follows reply start (ConvertLeft start n x y f env)
      (fun w => (Relation.convert n x y f).AtRest w ∧ ConvertLeft start n x y f env .ended w)
      d w.client (advanceConvert reply.call (.convert n x y f) n x y f w) := by
  rw [advanceConvert, bind_apply, get_apply]
  cases h with
  | fresh progress restored =>
    have shows := initial.of_restored restored
    cases held : w.value x with
    | none =>
      have unbound : env.value x.id = none := (shows.value x).symm.trans held
      simp only [show (w.cell x).value = none from held, throw_apply, dialogue, unbound]
      exact .interrupted rfl
    | some v =>
      simp only [show (w.cell x).value = some v from held, bind_apply, progress_apply, progress]
      exact applyConversion_follows shows restored held
  | owning progress bound apart restored free =>
    obtain ⟨v, held⟩ := Option.isSome_iff_exists.mp bound
    -- The source has not changed since, so that the second call gives the target up.
    simp only [show (w.cell x).value = some v from held, bind_apply, progress_apply, progress,
      if_true, releaseTarget_of_owning progress, pure_apply]
    have back := (restored.trans (restoredBut_clear w y)).restored free
      (value_modifyCell_clear w y)
    have source : (w.modifyCell y Cell.clear).cell x = w.cell x :=
      World.cell_modifyCell_of_ne _ _ apart.symm
    refine .ended rfl (back.trans (.noted _ n _)) ⟨ConvertLeft.atRest (World.progress_noted ..),
      .spent ?_ ?_ (back.trans (.noted _ n _))⟩
    · rw [World.progress_noted, World.cell_noted, source]
    · rw [World.value_noted, World.value, source]
      exact bound
  | spent progress bound restored =>
    obtain ⟨v, held⟩ := Option.isSome_iff_exists.mp bound
    have rest := ConvertLeft.atRest (x := x) (y := y) (f := f) progress
    simp only [show (w.cell x).value = some v from held, bind_apply, progress_apply, progress,
      if_true, releaseTarget_of_spent rest, pure_apply]
    exact .ended rfl restored ⟨ConvertLeft.atRest progress, .spent progress bound restored⟩

theorem convert_converses (ready : (Relation.convert n x y f).Ready w) (shows : w.Shows env) :
    (Relation.convert n x y f).Converses reply fuel w
      ((Relation.convert n x y f).dialogue env) w := by
  obtain ⟨fresh, idle⟩ := ready n (List.mem_singleton.mpr rfl)
  exact .of_leaf (Q := ConvertLeft w n x y f env) rfl rfl (fun _ _ _ h => h.congr)
    (fun _ _ h => h.step shows) idle (.fresh fresh (.refl w))

/-! ## Comparisons -/

/-- The invariant of a comparison.  Once it has had its turn, dropping the watches it noted restores
the world. -/
inductive CompareLeft (start : World κ σ) (n : Nat) (x y : Var) (c : Comparison κ) (env : Env κ) :
    Dialogue κ → World κ σ → Prop
  | fresh {w : World κ σ} (progress : (w.node n).progress = .fresh) (restored : Restored start w) :
    CompareLeft start n x y c env ((Relation.compare n x y c).dialogue env) w
  | fired {w : World κ σ} {entries : List (Var × Nat)}
      (progress : (w.node n).progress = .fired entries)
      (restored : Restored start (w.dropAll entries)) : CompareLeft start n x y c env .ended w

theorem CompareLeft.congr (h : CompareLeft start n x y c env d w)
    (same : (Relation.compare n x y c).Resembles w w') :
    CompareLeft start n x y c env d w' := by
  cases h with
  | fresh progress restored =>
    exact .fresh (same.progress.trans progress) (restored.trans same.restored)
  | fired progress restored =>
    exact .fired (same.progress.trans progress) (restored.trans (same.restored.dropAll _))

theorem CompareLeft.atRest (progress : (w.node n).progress = .fired []) :
    (Relation.compare n x y c).AtRest w := by
  intro _ h
  cases progress.symm.trans h
  rfl

/-- A comparison with an unbound operand leaves its watches. -/
theorem CompareLeft.watching (shows : w.Shows env) (restored : Restored start w) :
    Follows reply start (CompareLeft start n x y c env)
      (fun w => (Relation.compare n x y c).AtRest w ∧ CompareLeft start n x y c env .ended w)
      (.once (env.defer x y c)) w.client (.ok true (w.watching n x y c)) := by
  have noted := Restored.noted w n (.fired [])
  have shows' := shows.of_restored noted
  -- The watches are dropped in the order in which they were left.
  have back := Restored.dropAll_deferred shows'.numbered
    (show Restored start ((w.noted n (.fired [])).dropAll []) from restored.trans noted) x y c true
  have both := back.dropAll_deferred (shows'.numbered.deferred x y c true) y x c false
  exact .found (World.client_watching ..) ((shows'.defer x y c).of_restored (.noted _ n _))
    (.fired (World.progress_noted ..) (both.trans ((Restored.noted _ n _).dropAll _)))

theorem CompareLeft.step (initial : start.Shows env) (h : CompareLeft start n x y c env d w) :
    Follows reply start (CompareLeft start n x y c env)
      (fun w => (Relation.compare n x y c).AtRest w ∧ CompareLeft start n x y c env .ended w)
      d w.client (advanceCompare reply.call n x y c w) := by
  cases h with
  | fresh progress restored =>
    have shows := initial.of_restored restored
    have unfired : ∀ entries, (w.node n).progress ≠ .fired entries :=
      fun entries fired => nomatch progress.symm.trans fired
    rw [advanceCompare_of_unfired unfired, dialogue, ← shows.value, ← shows.value]
    cases w.value x with
    | none => exact CompareLeft.watching shows restored
    | some v =>
      cases w.value y with
      | none => exact CompareLeft.watching shows restored
      | some u =>
        have noted (client : σ) := (restored.trans (.noted w n (.fired []))).trans
          (.withClient _ client)
        have fired (client : σ) : CompareLeft start n x y c env .ended
            ((w.noted n (.fired [])).withClient client) :=
          .fired (World.progress_noted ..) (noted client)
        have atRest (client : σ) : (Relation.compare n x y c).AtRest
            ((w.noted n (.fired [])).withClient client) :=
          CompareLeft.atRest (World.progress_noted ..)
        dsimp only
        rw [← bind_pure (c.holds reply.call v u)]
        refine Follows.compare (w := w.noted n (.fired [])) (fun client => ?_) fun client => ?_
        · exact .found rfl (initial.of_restored (noted client)) (fired client)
        · exact .ended rfl (noted client) ⟨atRest client, fired client⟩
  | fired progress restored =>
    have back := restored.trans (.noted _ n (.fired []))
    rw [advanceCompare_of_fired progress]
    exact .ended (World.client_dropAll ..) back ⟨CompareLeft.atRest (World.progress_noted ..),
      .fired (World.progress_noted ..) back⟩

theorem compare_converses (ready : (Relation.compare n x y c).Ready w) (shows : w.Shows env) :
    (Relation.compare n x y c).Converses reply fuel w
      ((Relation.compare n x y c).dialogue env) w := by
  obtain ⟨fresh, idle⟩ := ready n (List.mem_singleton.mpr rfl)
  exact .of_leaf (Q := CompareLeft w n x y c env) rfl rfl (fun _ _ _ h => h.congr)
    (fun _ _ h => h.step shows) idle (.fresh fresh (.refl w))

/-! ## Relations with one turn -/

/-- The invariant of a relation that has one turn and touches no variable. -/
inductive TurnLeft (start : World κ σ) (r : Relation κ) (env : Env κ) :
    Dialogue κ → World κ σ → Prop
  | fresh {w : World κ σ} (progress : (w.node r.node).progress = .fresh)
      (restored : Restored start w) : TurnLeft start r env (r.dialogue env) w
  | fired {w : World κ σ} {entries : List (Var × Nat)}
      (progress : (w.node r.node).progress = .fired entries) (restored : Restored start w) :
    TurnLeft start r env .ended w

theorem TurnLeft.congr {r : Relation κ} (h : TurnLeft start r env d w) (same : r.Resembles w w') :
    TurnLeft start r env d w' := by
  cases h with
  | fresh progress restored =>
    exact .fresh (same.progress.trans progress) (restored.trans same.restored)
  | fired progress restored =>
    exact .fired (same.progress.trans progress) (restored.trans same.restored)

variable {xs : List Var}

theorem predicate_step (initial : start.Shows env)
    (h : TurnLeft start (.predicate n xs f) env d w) :
    Follows reply start (TurnLeft start (.predicate n xs f) env)
      (fun w => (Relation.predicate n xs f).AtRest w ∧
        TurnLeft start (.predicate n xs f) env .ended w)
      d w.client (advancePredicate reply.call (.predicate n xs f) n xs f w) := by
  rw [advancePredicate, bind_apply, progress_apply]
  cases h with
  | fresh progress restored =>
    simp only [show (w.node n).progress = .fresh from progress, bind_apply, get_apply,
      (initial.of_restored restored).valuesOf, dialogue]
    cases env.valuesOf xs with
    | error x => exact .interrupted rfl
    | ok values =>
      have noted (client : σ) := (restored.trans (.noted w n (.fired []))).trans
        (.withClient _ client)
      have fired (client : σ) : TurnLeft start (.predicate n xs f) env .ended
          ((w.noted n (.fired [])).withClient client) :=
        .fired (World.progress_noted ..) (noted client)
      simp only [bind_apply, setProgress_apply]
      rw [← bind_pure (Caller.holds reply.call f values)]
      refine Follows.test (w := w.noted n (.fired [])) (fun client => ?_) fun client => ?_
      · exact .found rfl (initial.of_restored (noted client)) (fired client)
      · exact .ended rfl (noted client) ⟨trivial, fired client⟩
  | fired progress restored =>
    simp only [show (w.node n).progress = .fired _ from progress]
    exact .ended rfl restored ⟨trivial, .fired progress restored⟩

theorem predicate_converses (ready : (Relation.predicate n xs f).Ready w) (shows : w.Shows env) :
    (Relation.predicate n xs f).Converses reply fuel w
      ((Relation.predicate n xs f).dialogue env) w := by
  obtain ⟨fresh, idle⟩ := ready n (List.mem_singleton.mpr rfl)
  exact .of_leaf (Q := TurnLeft w (.predicate n xs f) env) rfl rfl (fun _ _ _ h => h.congr)
    (fun _ _ h => predicate_step shows h) idle (.fresh fresh (.refl w))

theorem always_step (initial : start.Shows env) (h : TurnLeft start (.always n) env d w) :
    Follows reply start (TurnLeft start (.always n) env)
      (fun w => (Relation.always n).AtRest w ∧ TurnLeft start (.always n) env .ended w)
      d w.client (advanceAlways n w) := by
  rw [advanceAlways, bind_apply, progress_apply]
  cases h with
  | fresh progress restored =>
    have noted := restored.trans (.noted w n (.fired []))
    simp only [show (w.node n).progress = .fresh from progress]
    exact .found rfl (initial.of_restored noted) (.fired (World.progress_noted ..) noted)
  | fired progress restored =>
    simp only [show (w.node n).progress = .fired _ from progress]
    exact .ended rfl restored ⟨trivial, .fired progress restored⟩

theorem always_converses (ready : (Relation.always n : Relation κ).Ready w) (shows : w.Shows env) :
    (Relation.always n).Converses reply fuel w ((Relation.always n).dialogue env) w := by
  obtain ⟨fresh, idle⟩ := ready n (List.mem_singleton.mpr rfl)
  exact .of_leaf (Q := TurnLeft w (.always n) env) rfl rfl (fun _ _ _ h => h.congr)
    (fun _ _ h => always_step shows h) idle (.fresh fresh (.refl w))

theorem never_converses (ready : (Relation.never n : Relation κ).Ready w) :
    (Relation.never n).Converses reply fuel w ((Relation.never n).dialogue env) w := by
  have idle := (ready n (List.mem_singleton.mpr rfl)).2
  refine .of_leaf (Q := fun d v => d = .ended ∧ Restored w v) rfl rfl ?_ ?_ idle ⟨rfl, .refl w⟩
  · rintro d v v' ⟨rfl, restored⟩ same
    exact ⟨rfl, restored.trans same.restored⟩
  · rintro d v ⟨rfl, restored⟩
    exact .ended rfl restored ⟨trivial, rfl, restored⟩

/-- **A leaf holds its dialogue.** -/
theorem Converses.of_isLeaf {r : Relation κ} (leaf : r.IsLeaf) (ready : r.Ready w)
    (shows : w.Shows env) : r.Converses reply fuel w (r.dialogue env) w := by
  cases r with
  | domain => exact domain_converses ready shows
  | convert => exact convert_converses ready shows
  | compare => exact compare_converses ready shows
  | predicate => exact predicate_converses ready shows
  | always => exact always_converses ready shows
  | never => exact never_converses ready
  | and | or => cases leaf

/-- A leaf delivers its answers. -/
theorem Resumes.of_isLeaf {r : Relation Function} {w : World Function σ} {env : Env Function}
    (leaf : r.IsLeaf) (ready : r.Ready w) (shows : w.Shows env) :
    r.Resumes fuel w (r.answers env) w :=
  .of_converses (.of_isLeaf leaf ready shows)

end Relation
end RelationSearch
