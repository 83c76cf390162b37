import Mathlib.Logic.Function.Iterate
import RelationSearch.Proofs.Fuel
import RelationSearch.Proofs.Quiet
import RelationSearch.Proofs.Rewinding

/-! # Searches that never end

A loop whose every turn leads back to where a turn can begin runs out of any fuel (`conjoin_runs_out`),
and a call that always leads back to where it was made goes on answering (`Act.forever`).
-/
namespace RelationSearch

open Act RelationSearch.Relation

variable {κ σ α : Type} {call : Caller κ σ} {fuel n m q : Nat} {l r : Relation κ} {x y : Var}
variable {w w' : World κ σ} {Inv : World κ σ → Prop}

/-- A computation that always leads back goes on for ever. -/
theorem Act.forever {act : Act κ σ α} {result : World κ σ → EStateM.Result Interrupt (World κ σ) α}
    (step : ∀ w, Inv w → ∃ w', act w = result w' ∧ Inv w') (begun : Inv w) :
    ∃ run : Nat → World κ σ, run 0 = w ∧ ∀ i, act (run i) = result (run (i + 1)) := by
  have next (w : {w // Inv w}) : ∃ w' : {w // Inv w}, act w = result w' := by
    obtain ⟨w', ran, kept⟩ := step w w.2
    exact ⟨⟨w', kept⟩, ran⟩
  choose next ran using next
  refine ⟨fun i => (Nat.iterate next i ⟨w, begun⟩).1, rfl, fun i => ?_⟩
  have after := Function.iterate_succ_apply' next i ⟨w, begun⟩
  exact (ran _).trans (congrArg (fun v => result v.1) after.symm)

/-- A turn of the loop of a conjunction leads back to where a turn can begin. -/
def TurnsBack (n : Nat) (left right : Act κ σ Bool) (rewind : Act κ σ Unit)
    (Inv : World κ σ → Prop) : Prop :=
  ∀ w, Inv w → ∃ w₁ w₂ w₃, left w = .ok true w₁ ∧ right (w₁.noted n .retrying) = .ok false w₂ ∧
    rewind w₂ = .ok ⟨⟩ w₃ ∧ Inv w₃

theorem conjoin_runs_out {left right : Act κ σ Bool} {rewind : Act κ σ Unit}
    (turn : TurnsBack n left right rewind Inv) (fuel : Nat) (begun : Inv w) :
    ∃ w', conjoin n left right rewind fuel w = .error .outOfFuel w' := by
  induction fuel generalizing w with
  | zero => exact ⟨w, rfl⟩
  | succ fuel ih =>
    obtain ⟨w₁, w₂, w₃, answered, failed, rewound, kept⟩ := turn w begun
    obtain ⟨w', ran⟩ := ih kept
    refine ⟨w', ?_⟩
    simp only [conjoin, bind_apply, answered, if_true, setProgress_apply, failed,
      Bool.false_eq_true, if_false, rewound, ran]

/-- **A conjunction whose turns lead back never returns**: no fuel is enough for it. -/
theorem Relation.and_runs_out (turn : ∀ fuel, TurnsBack n (l.solve call fuel) (r.solve call fuel)
      r.reset Inv) (fresh : (w.node n).progress = .fresh) (idle : (w.node n).busy = false)
    (begun : Inv (w.setBusy n true)) (fuel : Nat) :
    ∃ w', (Relation.and n l r).solve call fuel w = .error .outOfFuel w' := by
  obtain ⟨w', ran⟩ := conjoin_runs_out (turn fuel) fuel begun
  have progress : ((w.setBusy n true).node n).progress = .fresh := by
    rw [World.progress_setBusy, fresh]
  have search : advanceAnd fuel n (l.solve call fuel) (r.solve call fuel) r.reset
      (w.setBusy n true) = .error .outOfFuel w' := by
    rw [advanceAnd_of_fresh progress, ran]
  have called : (Relation.and n l r).solve call fuel w = _ := answering_of_idle idle
  simp only [Relation.node, search] at called
  exact ⟨_, called⟩

/-! ## The relation that holds once -/

theorem answering_ok {search : Act κ σ Bool} {answer : Bool} (idle : (w.node r.node).busy = false)
    (ran : search (w.setBusy r.node true) = .ok answer w') :
    answering r search w = .ok answer (w'.concluded r answer) := by
  rw [answering_of_idle idle, ran]

theorem always_answers (ready : (Relation.always n : Relation κ).Ready w) :
    (Relation.always n).solve call fuel w =
      .ok true (((w.setBusy n true).noted n (.fired [])).concluded (.always n) true) := by
  obtain ⟨fresh, idle⟩ := ready n (node_mem_ids _)
  refine answering_ok idle ?_
  change advanceAlways n (w.setBusy n true) = _
  rw [advanceAlways, bind_apply, progress_apply, World.progress_setBusy, fresh]
  rfl

theorem always_spent {entries : List (Var × Nat)} (idle : (w.node n).busy = false)
    (fired : (w.node n).progress = .fired entries) :
    (Relation.always n).solve call fuel w =
      .ok false ((w.setBusy n true).concluded (.always n) false) := by
  refine answering_ok idle ?_
  change advanceAlways n (w.setBusy n true) = _
  rw [advanceAlways, bind_apply, progress_apply, World.progress_setBusy, fired]
  rfl

/-- On both sides of a conjunction, it is used up by the left side, and reset as the right one. -/
theorem turnsBack_always (call : Caller κ σ) (fuel : Nat) (ne : n ≠ m) :
    TurnsBack n ((Relation.always m).solve call fuel) ((Relation.always m).solve call fuel)
      (Relation.always m).reset (Relation.always m).Ready := by
  intro w ready
  let w₁ := ((w.setBusy m true).noted m (.fired [])).concluded (.always m) true
  have idle : ((w₁.noted n .retrying).node m).busy = false := by
    rw [World.node_noted_of_ne _ _ _ ne]
    exact World.busy_concluded ..
  have fired : ((w₁.noted n .retrying).node m).progress = .fired [] := by
    rw [World.node_noted_of_ne _ _ _ ne, World.progress_concluded, World.progress_noted]
  let w₂ := ((w₁.noted n .retrying).setBusy m true).concluded (.always m) false
  have idle₂ : (Relation.always m).Idle w₂ := by
    intro k hk
    obtain rfl := List.mem_singleton.mp hk
    exact World.busy_concluded ..
  have coherent : (Relation.always m : Relation κ).Coherent := .of_nodup (List.nodup_singleton m)
  obtain ⟨w₃, rewound, ready₃⟩ := reset_ready coherent idle₂
  exact ⟨w₁, w₂, w₃, always_answers ready, always_spent idle fired, rewound, ready₃⟩

/-! ## Callbacks that meddle with the search -/

section Predicate

variable {k : κ}

/-- A predicate without operands has its callback answer. -/
theorem predicate_answers {v : Value} (ready : (Relation.predicate m [] k).Ready w)
    (ran : call k [] ((w.setBusy m true).noted m (.fired [])) = .ok v w') :
    (Relation.predicate m [] k).solve call fuel w =
      .ok v.isTrue (w'.concluded (.predicate m [] k) v.isTrue) := by
  obtain ⟨fresh, idle⟩ := ready m (node_mem_ids _)
  refine answering_ok idle ?_
  change advancePredicate call _ m [] k (w.setBusy m true) = _
  rw [advancePredicate, bind_apply, progress_apply, World.progress_setBusy, fresh]
  simp only [bind_apply, get_apply, World.valuesOf, setProgress_apply, Caller.holds, ran, pure_apply]

theorem predicate_reset (idle : (w.node m).busy = false) :
    (Relation.predicate m [] k).reset w =
      .ok ⟨⟩ ((w.setBusy m true).rewound (.predicate m [] k)) :=
  rewinding_of_idle idle

/-- A predicate whose operand has no value interrupts the call, and stays as it was. -/
theorem predicate_interrupts (fresh : (w.node m).progress = .fresh)
    (idle : (w.node m).busy = false) (unbound : w.value x = none) :
    (Relation.predicate m [x] k).solve call fuel w =
      .error (.unbound x.name (Relation.predicate m [x] k).bareImage)
        ((w.setBusy m true).setBusy m false) := by
  have search : advancePredicate call (.predicate m [x] k) m [x] k (w.setBusy m true) =
      .error (.unbound x.name (Relation.predicate m [x] k).bareImage) (w.setBusy m true) := by
    rw [advancePredicate, bind_apply, progress_apply, World.progress_setBusy, fresh]
    simp only [bind_apply, get_apply, World.valuesOf, World.value_setBusy, unbound, throw_apply]
  have called : (Relation.predicate m [x] k).solve call fuel w = _ := answering_of_idle idle
  simp only [Relation.node, search] at called
  exact called

/-- A test that resets the left side of its conjunction, and refuses. -/
theorem turnsBack_resetting (fuel : Nat) (left : n ≠ m) (right : n ≠ q) (sides : m ≠ q)
    (resets : ∀ w, call k [] w = (do (Relation.always m).reset; return .bool false : Act κ σ Value) w) :
    TurnsBack n ((Relation.always m).solve call fuel) ((Relation.predicate q [] k).solve call fuel)
      (Relation.predicate q [] k).reset
      fun w => (Relation.always m).Ready w ∧ (Relation.predicate q [] k).Ready w := by
  rintro w ⟨readyL, readyR⟩
  let w₁ := ((w.setBusy m true).noted m (.fired [])).concluded (.always m) true
  let v := w₁.noted n .retrying
  have ready : (Relation.predicate q [] k).Ready v := readyR.congr fun j hj => by
    obtain rfl := List.mem_singleton.mp hj
    rw [World.node_noted_of_ne _ _ _ right, World.node_concluded_of_ne _ (.always m) _ sides,
      World.node_noted_of_ne _ _ _ sides, World.node_setBusy_of_ne _ _ sides]
  have idle : (Relation.always m).Idle ((v.setBusy q true).noted q (.fired [])) := by
    intro j hj
    obtain rfl := List.mem_singleton.mp hj
    rw [World.node_noted_of_ne _ _ _ sides.symm, World.node_setBusy_of_ne _ _ sides.symm,
      World.node_noted_of_ne _ _ _ left]
    exact World.busy_concluded ..
  have coherent : (Relation.always m : Relation κ).Coherent := .of_nodup (List.nodup_singleton m)
  -- The callback finds the left side used up, and idle.
  obtain ⟨v₁, rewound, ready₁⟩ := reset_ready coherent idle
  have ran : call k [] ((v.setBusy q true).noted q (.fired [])) = .ok (.bool false) v₁ := by
    rw [resets, bind_apply, rewound]
    rfl
  let w₂ := v₁.concluded (.predicate q [] k) false
  refine ⟨w₁, w₂, _, always_answers readyL, predicate_answers ready ran,
    predicate_reset (World.busy_concluded ..), ready₁.congr fun j hj => ?_, fun j hj => ?_⟩
  · obtain rfl := List.mem_singleton.mp hj
    rw [World.node_rewound_of_ne _ (.predicate q [] k) sides.symm,
      World.node_setBusy_of_ne _ _ sides.symm,
      World.node_concluded_of_ne _ (.predicate q [] k) _ sides.symm]
  · obtain rfl := List.mem_singleton.mp hj
    exact ⟨World.progress_rewound .., World.busy_rewound ..⟩

/-- A conversion whose source was bound since it was last asked, and whose target agrees. -/
structure Renewed (m : Nat) (x y : Var) (u : Value) (w : World κ σ) : Prop where
  source : (w.value x).isSome
  target : w.value y = some u
  paused : (w.node m).progress = .fresh ∨
    ∃ g, (w.node m).progress = .applied g false ∧ g ≠ (w.cell x).generation

theorem Renewed.setBusy {u : Value} (h : Renewed m x y u w) (busy : Bool) :
    Renewed m x y u (w.setBusy n busy) where
  source := h.source
  target := h.target
  paused := by
    rw [World.progress_setBusy]
    exact h.paused

theorem Renewed.answers {f : κ} {u : Value} (h : Renewed m x y u w) (agrees : (u == u) = true)
    (converts : ∀ args (w : World κ σ), call f args w = .ok u w) :
    advanceConvert call r m x y f w = .ok true (w.noted m (.applied (w.cell x).generation false)) := by
  obtain ⟨v, bound⟩ := Option.isSome_iff_exists.mp h.source
  have apply : applyConversion call m y f v (w.cell x).generation false w =
      .ok true (w.noted m (.applied (w.cell x).generation false)) := by
    simp only [applyConversion, bind_apply, setProgress_apply, converts, value_apply,
      World.value_noted, h.target, pure_apply, agrees]
  rw [advanceConvert, bind_apply, get_apply]
  dsimp only
  change (w.cell x).value = some v at bound
  simp only [bound, bind_apply, progress_apply]
  obtain fresh | ⟨g, applied, ne⟩ := h.paused
  · simp only [fresh, apply]
  · simp only [applied, if_neg ne, apply]

/-- A test that binds the source of a conversion anew, and refuses. -/
theorem turnsBack_rebinding {f : κ} {u v : Value} (fuel : Nat) (left : n ≠ m) (right : n ≠ q)
    (sides : m ≠ q) (apart : x.id ≠ y.id) (agrees : (u == u) = true)
    (converts : ∀ args (w : World κ σ), call f args w = .ok u w)
    (rebinds : ∀ w : World κ σ, call k [] w = .ok (.bool false) (w.modifyCell x (·.put v))) :
    TurnsBack n ((Relation.convert m x y f).solve call fuel)
      ((Relation.predicate q [] k).solve call fuel) (Relation.predicate q [] k).reset
      fun w => ((w.node m).busy = false ∧ Renewed m x y u w) ∧ (Relation.predicate q [] k).Ready w := by
  rintro w ⟨⟨idle, renewed⟩, readyR⟩
  let w₁ := ((w.setBusy m true).noted m (.applied (w.cell x).generation false)).concluded
    (.convert m x y f) true
  have ready : (Relation.predicate q [] k).Ready (w₁.noted n .retrying) :=
    readyR.congr fun j hj => by
      obtain rfl := List.mem_singleton.mp hj
      rw [World.node_noted_of_ne _ _ _ right,
        World.node_concluded_of_ne _ (.convert m x y f) _ sides,
        World.node_noted_of_ne _ _ _ sides, World.node_setBusy_of_ne _ _ sides]
  let w₂ := ((((w₁.noted n .retrying).setBusy q true).noted q (.fired [])).modifyCell x
    (·.put v)).concluded (.predicate q [] k) false
  let w₃ := (w₂.setBusy q true).rewound (.predicate q [] k)
  -- The conversion's node is as the left call left it, and its source has a new generation.
  have node : w₃.node m = w₁.node m := by
    rw [World.node_rewound_of_ne _ (.predicate q [] k) sides.symm,
      World.node_setBusy_of_ne _ _ sides.symm,
      World.node_concluded_of_ne _ (.predicate q [] k) _ sides.symm, World.node_modifyCell,
      World.node_noted_of_ne _ _ _ sides.symm, World.node_setBusy_of_ne _ _ sides.symm,
      World.node_noted_of_ne _ _ _ left]
  have source : w₃.cell x = (w.cell x).put v := by
    rw [World.cell_rewound, World.cell_setBusy, World.cell_concluded, World.cell_modifyCell_self,
      World.cell_noted, World.cell_setBusy, World.cell_noted, World.cell_concluded,
      World.cell_noted, World.cell_setBusy]
  have target : w₃.cell y = w.cell y := by
    rw [World.cell_rewound, World.cell_setBusy, World.cell_concluded,
      World.cell_modifyCell_of_ne _ _ apart, World.cell_noted, World.cell_setBusy, World.cell_noted,
      World.cell_concluded, World.cell_noted, World.cell_setBusy]
  refine ⟨w₁, w₂, w₃, answering_ok idle ((renewed.setBusy true).answers agrees converts),
    predicate_answers ready (rebinds _), predicate_reset (World.busy_concluded ..), ⟨?_, ?_⟩,
    fun j hj => ?_⟩
  · rw [node]
    exact World.busy_concluded ..
  · refine ⟨?_, (congrArg Cell.value target).trans renewed.target, .inr ⟨(w.cell x).generation, ?_⟩⟩
    · rw [World.value, source]
      rfl
    · rw [node, World.progress_concluded, World.progress_noted, source]
      exact ⟨rfl, Nat.ne_of_lt (Nat.lt_succ_self _)⟩
  · obtain rfl := List.mem_singleton.mp hj
    exact ⟨World.progress_rewound .., World.busy_rewound ..⟩

end Predicate

/-! ## A domain on both sides -/

section Domain

variable {values rest : List Value} {a b v : Value}

/-- Nobody is driving the domain, and any value suits its variable. -/
structure Unhindered (m : Nat) (x : Var) (w : World κ σ) : Prop where
  idle : (w.node m).busy = false
  unwatched : (w.cell x).watches = []

theorem offer_answers (unwatched : (w.cell x).watches = []) :
    offer call m x (v :: rest) w =
      .ok true ((w.noted m (.binding rest)).modifyCell x (·.put v)) := by
  have took : x.bind call v (w.noted m (.binding rest)) =
      .ok true ((w.noted m (.binding rest)).modifyCell x (·.put v)) := by
    rw [Var.bind, bind_apply, get_apply]
    simp only [World.cell_noted, unwatched, acceptedBy, bind_apply, pure_apply, if_true, modify_apply]
  simp only [offer, bind_apply, setProgress_apply, took, if_true, pure_apply]

/-- The world after a domain has bound its variable. -/
def Took (m : Nat) (x : Var) (values rest : List Value) (v : Value) (w : World κ σ) : World κ σ :=
  (((w.setBusy m true).noted m (.binding rest)).modifyCell x (·.put v)).concluded
    (.domain m x values) true

theorem domain_answers (h : Unhindered m x w)
    (left : (w.node m).progress = .binding (v :: rest) ∨
      (w.node m).progress = .fresh ∧ w.value x = none ∧ values = v :: rest) :
    (Relation.domain m x values).solve call fuel w = .ok true (Took m x values rest v w) := by
  refine answering_ok h.idle ?_
  change advanceDomain call m x values (w.setBusy m true) = _
  rw [advanceDomain, bind_apply, progress_apply, World.progress_setBusy]
  obtain progress | ⟨fresh, unbound, rfl⟩ := left
  · simp only [progress]
    exact offer_answers h.unwatched
  · simp only [fresh, bind_apply, value_apply, World.value_setBusy, unbound]
    exact offer_answers h.unwatched

theorem node_took_of_ne (ne : m ≠ q) : (Took m x values rest v w).node q = w.node q := by
  rw [Took, World.node_concluded_of_ne _ (.domain m x values) _ ne, World.node_modifyCell,
    World.node_noted_of_ne _ _ _ ne, World.node_setBusy_of_ne _ _ ne]

theorem progress_took : ((Took m x values rest v w).node m).progress = .binding rest := by
  rw [Took, World.progress_concluded, World.node_modifyCell, World.progress_noted]

theorem Unhindered.took (h : Unhindered m x w) : Unhindered m x (Took m x values rest v w) where
  idle := World.busy_concluded ..
  unwatched := by
    rw [Took, World.cell_concluded, World.cell_modifyCell_self]
    exact h.unwatched

theorem Unhindered.noted (h : Unhindered m x w) (ne : n ≠ m) (p : Progress) :
    Unhindered m x (w.noted n p) where
  idle := by rw [World.node_noted_of_ne _ _ _ ne]; exact h.idle
  unwatched := h.unwatched

/-- A domain without further values gives up its variable, and can begin anew after a reset. -/
theorem domain_begins_anew (h : Unhindered m x w) (spent : (w.node m).progress = .binding []) :
    ∃ w₁ w₂, (Relation.domain m x values).solve call fuel w = .ok false w₁ ∧
      (Relation.domain m x values).reset w₁ = .ok ⟨⟩ w₂ ∧ Unhindered m x w₂ ∧
      (w₂.node m).progress = .fresh ∧ w₂.value x = none := by
  let v := (((w.setBusy m true).noted m (.binding [])).modifyCell x Cell.clear)
  let w₁ := v.concluded (.domain m x values) false
  let w₂ := ((w₁.setBusy m true).modifyCell x Cell.clear).rewound (.domain m x values)
  have solved : (Relation.domain m x values).solve call fuel w = .ok false w₁ := by
    refine answering_ok h.idle ?_
    change advanceDomain call m x values (w.setBusy m true) = _
    rw [advanceDomain, bind_apply, progress_apply, World.progress_setBusy]
    simp only [spent]
    rfl
  have progress : (w₁.node m).progress = .binding [] := by
    rw [World.progress_concluded, World.node_modifyCell, World.progress_noted]
  have undone : retract (.domain m x values) (w₁.setBusy m true) =
      .ok ⟨⟩ ((w₁.setBusy m true).modifyCell x Cell.clear) := by
    rw [retract, bind_apply, progress_apply, World.progress_setBusy, progress]
    rfl
  have rewound : (Relation.domain m x values).reset w₁ = _ :=
    rewinding_of_idle (World.busy_concluded ..)
  simp only [Relation.node, undone] at rewound
  have cell : w₂.cell x = (w.cell x).clear.clear := by
    rw [World.cell_rewound, World.cell_modifyCell_self, World.cell_setBusy, World.cell_concluded,
      World.cell_modifyCell_self, World.cell_noted, World.cell_setBusy]
  refine ⟨w₁, w₂, solved, rewound, ⟨World.busy_rewound .., ?_⟩, World.progress_rewound .., ?_⟩
  · rw [cell, Cell.watches_clear, Cell.watches_clear]
    exact h.unwatched
  · rw [World.value, cell, Cell.value_clear]

/-- A conjunction of a domain with itself, after an answer. -/
structure Doubled (n m : Nat) (x : Var) (w : World κ σ) : Prop extends Unhindered m x w where
  idleTop : (w.node n).busy = false
  retrying : (w.node n).progress = .retrying
  spent : (w.node m).progress = .binding []

/-- A domain with two values on both sides: the right side gives up the second value and is reset, and
with it the left side, so that all begins anew. -/
theorem Doubled.answers (h : Doubled n m x w) (call : Caller κ σ) (fuel : Nat) (ne : n ≠ m) :
    ∃ w', (Relation.and n (.domain m x [a, b]) (.domain m x [a, b])).solve call (fuel + 1) w =
      .ok true w' ∧ Doubled n m x w' := by
  have busy : Unhindered m x (w.setBusy n true) :=
    ⟨by rw [World.node_setBusy_of_ne _ _ ne]; exact h.idle, h.unwatched⟩
  have spent : ((w.setBusy n true).node m).progress = .binding [] := by
    rw [World.progress_setBusy, h.spent]
  obtain ⟨w₁, w₂, failed, rewound, free, fresh, unbound⟩ :
      ∃ w₁ w₂, (Relation.domain m x [a, b]).solve call (fuel + 1) (w.setBusy n true) = .ok false w₁ ∧ _ :=
    domain_begins_anew busy spent
  let w₃ := Took m x [a, b] [b] a w₂
  let w₄ := Took m x [a, b] [] b (w₃.noted n .retrying)
  have first : (Relation.domain m x [a, b]).solve call (fuel + 1) w₂ = .ok true w₃ :=
    domain_answers free (.inr ⟨fresh, unbound, rfl⟩)
  have second : (Relation.domain m x [a, b]).solve call (fuel + 1) (w₃.noted n .retrying) =
      .ok true w₄ := by
    refine domain_answers (free.took.noted ne _) (.inl ?_)
    rw [World.node_noted_of_ne _ _ _ ne, progress_took]
  have search : advanceAnd (fuel + 1) n ((Relation.domain m x [a, b]).solve call (fuel + 1))
      ((Relation.domain m x [a, b]).solve call (fuel + 1)) (Relation.domain m x [a, b]).reset
      (w.setBusy n true) = .ok true w₄ := by
    have retrying : ((w.setBusy n true).node n).progress = .retrying :=
      (World.progress_setBusy ..).trans h.retrying
    rw [advanceAnd_of_retrying retrying]
    simp only [conjoinRight, bind_apply, failed, Bool.false_eq_true, if_false, rewound, conjoin, first,
      if_true, setProgress_apply, second, pure_apply]
  have free₄ : Unhindered m x w₄ := (free.took.noted ne _).took
  refine ⟨_, answering_ok h.idleTop search, ⟨?_, ?_⟩, World.busy_concluded .., ?_, ?_⟩
  · rw [World.node_concluded_of_ne _ (.and n _ _) _ ne]
    exact free₄.idle
  · rw [World.cell_concluded]
    exact free₄.unwatched
  · rw [World.progress_concluded, node_took_of_ne ne.symm, World.progress_noted]
  · rw [World.progress_concluded, progress_took]

end Domain

end RelationSearch
