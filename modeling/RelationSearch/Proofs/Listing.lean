import RelationSearch.Proofs.Construction
import RelationSearch.Proofs.Independence
import RelationSearch.Proofs.Sessions

/-! # The solutions that a client is given

A client that collects all solutions is given a snapshot of each environment that the relation answers,
in their order, and one that asks for the first is given the first of them (`collect_of_enumerates`,
`first?_of_enumerates`).

Which watches there are elsewhere does not matter.  If nothing is pending on the variables that the relation
mentions, it cannot tell the world from one without any watches (`Beside.unwatched`), and that world shows
an environment.
-/
namespace RelationSearch

open Act RelationSearch.Relation

variable {κ σ : Type} {fuel : Nat} {value : Nat → Option Value} {xs scope : List Var}
variable {vs : List Value}

/-! ## Snapshots -/

namespace Solution

/-- A snapshot of those of some variables that have a value. -/
def of (value : Nat → Option Value) (xs : List Var) : Solution :=
  xs.foldl (fun s x => match value x.id with
    | some v => s.insert { var := x, value := v }
    | none => s) empty

theorem capture_eq {w : World κ σ} (shows : ∀ x, w.value x = value x.id) (xs : List Var) :
    capture w xs = of value xs := by
  unfold capture of
  refine congrArg (xs.foldl · empty) (funext fun s => funext fun x => ?_)
  have same := shows x
  cases held : value x.id with
  | none =>
    rw [held] at same
    simp only [same]
  | some v =>
    rw [held] at same
    simp only [same]

/-- The solution gives each of the variables the value at its place, and binds no other variable. -/
def Assigns (s : Solution) (xs : List Var) (vs : List Value) : Prop :=
  s.bindings.Perm (List.zipWith Binding.mk xs vs)

theorem insertBinding_perm {b : Binding} {bs : List Binding} (new : ∀ a ∈ bs, a.var.id ≠ b.var.id) :
    (insertBinding b bs).Perm (b :: bs) := by
  induction bs with
  | nil => exact .refl _
  | cons a bs ih =>
    obtain ⟨here, later⟩ := List.forall_mem_cons.mp new
    rw [insertBinding]
    split
    · exact .refl _
    · rw [if_neg (Ne.symm here)]
      exact ((ih later).cons a).trans (.swap ..)

/-- The binding that a variable has. -/
def bindingOf (value : Nat → Option Value) (x : Var) : Option Binding :=
  (value x.id).map (Binding.mk x)

/-- A snapshot of different variables has the binding of each of them. -/
theorem bindings_of (distinct : (xs.map Var.id).Nodup) :
    (of value xs).bindings.Perm (xs.filterMap (bindingOf value)) := by
  have later (s : Solution) (new : ∀ a ∈ s.bindings, ∀ x ∈ xs, a.var.id ≠ x.id) :
      (xs.foldl (fun s x => match value x.id with
        | some v => s.insert { var := x, value := v }
        | none => s) s).bindings.Perm (xs.filterMap (bindingOf value) ++ s.bindings) := by
    induction xs generalizing s with
    | nil => exact .refl _
    | cons x xs ih =>
      obtain ⟨apart, distinct⟩ := List.nodup_cons.mp distinct
      rw [List.foldl_cons, List.filterMap_cons, bindingOf]
      cases held : value x.id with
      | none => exact ih distinct s fun a ha y hy => new a ha y (List.mem_cons_of_mem _ hy)
      | some v =>
        have inserted : (s.insert ⟨x, v⟩).bindings.Perm (⟨x, v⟩ :: s.bindings) :=
          insertBinding_perm fun a ha => new a ha x (List.mem_cons_self ..)
        refine (ih distinct _ fun a ha y hy => ?_).trans ?_
        · rcases List.mem_cons.mp (inserted.mem_iff.mp ha) with rfl | ha
          · exact fun same => apart (List.mem_map.mpr ⟨y, hy, same.symm⟩)
          · exact new a ha y (List.mem_cons_of_mem _ hy)
        · exact (inserted.append_left _).trans List.perm_middle
  exact (later empty fun a ha => absurd ha List.not_mem_nil).trans (.of_eq (List.append_nil _))

/-- A snapshot assigns the values that the variables have. -/
theorem assigns_of (distinct : (xs.map Var.id).Nodup) (same : scope.Perm xs)
    (held : List.Forall₂ (fun x v => value x.id = some v) xs vs) : (of value scope).Assigns xs vs := by
  have bindings : xs.filterMap (bindingOf value) = List.zipWith Binding.mk xs vs := by
    clear same distinct
    induction held with
    | nil => rfl
    | cons here _ ih =>
      rw [List.zipWith_cons_cons, ← ih, List.filterMap_cons, bindingOf, here]
      rfl
  have different : (scope.map Var.id).Nodup := (same.map Var.id).nodup_iff.mpr distinct
  rw [Assigns, ← bindings]
  exact (bindings_of different).trans (same.filterMap _)

end Solution

/-! ## Watches elsewhere -/

section Watches

variable {root : Relation Function} {b w v : World Function σ}
variable {solutions : List (Nat → Option Value)}

/-- The values of the variables, with nothing pending. -/
def World.bindings (w : World κ σ) : Env κ := ⟨fun i => (w.cells.get i).value, []⟩

/-- The world without any watches. -/
def World.unwatched (w : World κ σ) : World κ σ :=
  { w with cells := ⟨w.cells.entries.map fun cell => { cell with watches := [] }⟩ }

theorem World.cell_unwatched (w : World κ σ) (x : Var) :
    w.unwatched.cell x = { w.cell x with watches := [] } := by
  unfold World.cell World.unwatched Table.get
  rw [Array.getElem?_map]
  cases w.cells.entries[x.id]? <;> rfl

/-- Without watches, the world shows its values and that nothing is pending. -/
theorem World.shows_unwatched (w : World κ σ) : w.unwatched.Shows w.bindings where
  value x := by rw [World.value, World.cell_unwatched]; rfl
  watches x _ := by rw [World.cell_unwatched]; rfl
  numbered x watch hw := by rw [World.cell_unwatched] at hw; cases hw

/-- If nothing is pending on the variables that it mentions, a new relation cannot tell the world from the
one without any watches. -/
theorem Beside.unwatched (ready : root.Ready w)
    (quiet : ∀ x ∈ root.mentioned, (w.cell x).watches = []) :
    Beside root (fun _ => False) w w w.unwatched where
  confined := (Confined.steady root).refl w
  cell x hx := by
    obtain ⟨s, hs, hx⟩ := List.mem_flatMap.mp hx
    obtain ⟨y, hy, same⟩ := List.mem_map.mp hx
    have bare : (w.cell x).watches = [] := by
      rw [← cell_congr w same]
      exact quiet y (List.mem_flatMap.mpr ⟨s, hs, hy⟩)
    rw [World.cell_unwatched, ← bare]
  value x _ := by rw [World.value, World.cell_unwatched]; rfl
  asked _ _ _ _ := id
  node _ _ := rfl
  noted n x y c hn entries fired := by
    have fresh := (ready n (List.mem_map_of_mem hn)).1
    rw [fresh] at fired
    cases fired

/-- What a relation enumerates in one of two worlds that it cannot tell apart, it enumerates in the other. -/
theorem Beside.enumerates (h : Beside root (fun _ => False) b w v)
    (enumerates : root.Enumerates fuel solutions v) : root.Enumerates fuel solutions w := by
  have solved (w v : World Function σ) (h : Beside root (fun _ => False) b w v) {answer : Bool}
      {v' : World Function σ} (ran : root.solve Function.call fuel v = .ok answer v') :
      ∃ w', root.solve Function.call fuel w = .ok answer w' ∧ Beside root (fun _ => False) b w' v' := by
    have concur := h.call (fun _ _ => id) (.solve fuel)
    simp only [Request.act, bind_apply, ran] at concur
    cases here : root.solve Function.call fuel w with
    | error why w' => rw [here] at concur; cases concur
    | ok answer' w' =>
      rw [here] at concur
      cases concur with
      | ok worlds => exact ⟨w', rfl, worlds⟩
  induction solutions generalizing w v with
  | nil =>
    obtain ⟨v', ran⟩ := enumerates
    obtain ⟨w', here, -⟩ := solved w v h ran
    exact ⟨w', here⟩
  | cons values rest ih =>
    obtain ⟨v', ran, shows, later⟩ := enumerates
    obtain ⟨w', here, h'⟩ := solved w v h ran
    refine ⟨w', here, fun x => ?_, ih h' later⟩
    exact (h'.value x id).symm.trans (shows x)

/-- **A new relation enumerates its answers**, if nothing is pending on the variables that it mentions. -/
theorem enumerates_of_quiet (alone : Standalone [root] w)
    (quiet : ∀ x ∈ root.mentioned, (w.cell x).watches = [])
    (normal : (root.answers w.bindings).interrupt = none) (enough : root.weight < fuel) :
    root.Enumerates fuel ((root.answers w.bindings).found.map Env.value) w := by
  have here : root ∈ [root] := List.mem_singleton_self root
  have ready := alone.ready root here
  have resumes : root.Resumes fuel w.unwatched (root.answers w.bindings) w.unwatched :=
    .of_ready (alone.coherent root here) (alone.separated root here) enough (ready.congr fun _ _ => rfl)
      w.shows_unwatched
  exact (Beside.unwatched ready quiet).enumerates (resumes.enumerates normal)

end Watches

/-! ## Lists without repetitions -/

/-- Adds those items to a list whose keys are new to it. -/
def addNewBy {α : Type} (key : α → Nat) (seen xs : List α) : List α :=
  xs.foldl (fun seen x => if seen.any (key · == key x) then seen else seen ++ [x]) seen

section AddNew

variable {α β : Type} {key : α → Nat} {seen xs ys : List α} {x : α} {k : Nat}

theorem addNew_eq (seen xs : List Var) : addNew seen xs = addNewBy Var.id seen xs := rfl

theorem any_key : seen.any (key · == k) = true ↔ k ∈ seen.map key := by
  simp

theorem addNewBy_append : addNewBy key seen (xs ++ ys) = addNewBy key (addNewBy key seen xs) ys :=
  List.foldl_append

theorem addNewBy_cons_old (old : key x ∈ seen.map key) :
    addNewBy key seen (x :: xs) = addNewBy key seen xs := by
  rw [addNewBy, List.foldl_cons, if_pos (any_key.mpr old)]
  rfl

theorem addNewBy_cons_new (new : key x ∉ seen.map key) :
    addNewBy key seen (x :: xs) = addNewBy key (seen ++ [x]) xs := by
  rw [addNewBy, List.foldl_cons, if_neg (mt any_key.mp new)]
  rfl

/-- What is known already adds nothing. -/
theorem addNewBy_known (known : ∀ x ∈ xs, key x ∈ seen.map key) : addNewBy key seen xs = seen := by
  induction xs with
  | nil => rfl
  | cons x xs ih =>
    obtain ⟨here, later⟩ := List.forall_mem_cons.mp known
    rw [addNewBy_cons_old here, ih later]

theorem mem_keys_addNewBy :
    k ∈ (addNewBy key seen xs).map key ↔ k ∈ seen.map key ∨ k ∈ xs.map key := by
  induction xs generalizing seen with
  | nil => simp [addNewBy]
  | cons x xs ih =>
    by_cases old : key x ∈ seen.map key
    · rw [addNewBy_cons_old old, ih, List.map_cons, List.mem_cons]
      refine ⟨Or.imp_right .inr, ?_⟩
      rintro (h | rfl | h)
      exacts [.inl h, .inl old, .inr h]
    · rw [addNewBy_cons_new old, ih]
      simp [or_assoc]

theorem addNewBy_subset : addNewBy key seen xs ⊆ seen ++ xs := by
  induction xs generalizing seen with
  | nil => simp [addNewBy]
  | cons x xs ih =>
    by_cases old : key x ∈ seen.map key
    · rw [addNewBy_cons_old old]
      exact List.Subset.trans ih (by simp)
    · rw [addNewBy_cons_new old]
      have rest : addNewBy key (seen ++ [x]) xs ⊆ (seen ++ [x]) ++ xs := ih
      simpa using rest

/-- Where an item is known by its key, none is missing. -/
theorem mem_addNewBy (unique : ∀ x ∈ seen ++ xs, ∀ y ∈ seen ++ xs, key x = key y → x = y) :
    x ∈ addNewBy key seen xs ↔ x ∈ seen ∨ x ∈ xs := by
  rw [← List.mem_append]
  refine ⟨fun h => addNewBy_subset h, fun h => ?_⟩
  have listed : key x ∈ (addNewBy key seen xs).map key := by
    rw [mem_keys_addNewBy, ← List.mem_append, ← List.map_append]
    exact List.mem_map_of_mem h
  obtain ⟨y, hy, same⟩ := List.mem_map.mp listed
  rwa [← unique y (addNewBy_subset hy) x h same]

theorem nodup_addNewBy (distinct : (seen.map key).Nodup) : ((addNewBy key seen xs).map key).Nodup := by
  induction xs generalizing seen with
  | nil => exact distinct
  | cons x xs ih =>
    by_cases old : key x ∈ seen.map key
    · rw [addNewBy_cons_old old]
      exact ih distinct
    · rw [addNewBy_cons_new old]
      refine ih ?_
      rw [List.map_append, List.map_singleton, ← List.concat_eq_append]
      exact distinct.concat old

/-- From nothing, this is what is left when every item after the first with its key is erased. -/
theorem addNewBy_nil (key : α → Nat) (xs : List α) :
    addNewBy key [] xs = xs.eraseDupsBy fun x y => key x == key y := by
  have loop (seen : List α) : addNewBy key seen.reverse xs =
      List.eraseDupsBy.loop (fun x y => key x == key y) xs seen := by
    induction xs generalizing seen with
    | nil => rfl
    | cons x xs ih =>
      rw [List.eraseDupsBy.loop]
      have met : seen.any (key x == key ·) = true ↔ key x ∈ seen.reverse.map key := by
        rw [List.map_reverse, List.mem_reverse, List.any_eq_true, List.mem_map]
        exact exists_congr fun y => and_congr_right fun _ => beq_iff_eq.trans eq_comm
      cases old : seen.any (key x == key ·) with
      | true => rw [addNewBy_cons_old (met.mp old), ih]
      | false =>
        rw [addNewBy_cons_new fun h => Bool.false_ne_true (old.symm.trans (met.mpr h)),
          ← List.reverse_cons, ih]
  exact loop []

/-- What is listed for the new items only is, without repetitions, what is listed for all. -/
theorem addNewBy_flatMap {key' : β → Nat} (f : α → List β)
    (unique : ∀ x ∈ seen ++ xs, ∀ y ∈ seen ++ xs, key x = key y → x = y) :
    addNewBy key' [] ((addNewBy key seen xs).flatMap f) =
      addNewBy key' (addNewBy key' [] (seen.flatMap f)) (xs.flatMap f) := by
  induction xs generalizing seen with
  | nil => rfl
  | cons x xs ih =>
    rw [List.flatMap_cons, addNewBy_append]
    by_cases old : key x ∈ seen.map key
    · obtain ⟨y, hy, same⟩ := List.mem_map.mp old
      obtain rfl : y = x := unique y (by simp [hy]) x (by simp) same
      rw [addNewBy_cons_old old, ih fun a ha b hb => unique a (by grind) b (by grind)]
      congr 1
      refine (addNewBy_known fun z hz => mem_keys_addNewBy.mpr (.inr ?_)).symm
      exact List.mem_map_of_mem (List.mem_flatMap_of_mem hy hz)
    · rw [addNewBy_cons_new old, ih (by simpa using unique), List.flatMap_append,
        List.flatMap_singleton, addNewBy_append]

end AddNew

/-! ## The variables of a solution -/

theorem Relation.gather_eq (seen : List Var) (r : Relation κ) :
    r.gather seen = addNew seen r.mentioned := by
  induction r generalizing seen with
  | and n l r ihl ihr => rw [gather, ihr, ihl, mentioned_and, addNew, addNew, addNew, List.foldl_append]
  | or n l r ihl ihr => rw [gather, ihr, ihl, mentioned_or, addNew, addNew, addNew, List.foldl_append]
  | domain | convert | compare | predicate | always | never =>
    exact congrArg (addNew seen) (List.flatMap_singleton ..).symm

/-- The solutions of a relation show the variables that it mentions, each once. -/
theorem Relation.scope_perm {root : Relation κ} (distinct : (xs.map Var.id).Nodup)
    (mentions : ∀ x, x ∈ root.mentioned ↔ x ∈ xs) : root.scope.Perm xs := by
  have unique : ∀ x ∈ [] ++ root.mentioned, ∀ y ∈ [] ++ root.mentioned, x.id = y.id → x = y :=
    fun x hx y hy => List.inj_on_of_nodup_map distinct ((mentions x).mp hx) ((mentions y).mp hy)
  have perm : (root.gather []).Perm xs := by
    rw [gather_eq, addNew_eq]
    have nodup : ((addNewBy Var.id [] root.mentioned).map Var.id).Nodup := nodup_addNewBy List.nodup_nil
    refine (List.perm_ext_iff_of_nodup (.of_map _ nodup) (.of_map _ distinct)).mpr fun x => ?_
    rw [mem_addNewBy unique, mentions]
    simp
  exact (List.mergeSort_perm ..).trans perm

/-! ## Collecting -/

section Collecting

variable {root : Relation Function} {w : World Function σ} {limit turns : Nat}
variable {solutions : List (Nat → Option Value)}

/-- The client that takes every solution is done when there are no more. -/
theorem drive_exhausted {w' : World Function σ} (ran : root.solve Function.call limit w = .ok false w')
    (xs : List Var) (found : Array Solution) (tally : Tally) :
    drive Function.call limit {} collector root xs (turns + 1) found tally w =
      .ok ⟨found, { tally with solveCalls := tally.solveCalls + 1 }, none⟩ w' := by
  have room : ({} : Settings).isReached tally = false := rfl
  rw [drive, room, if_neg Bool.false_ne_true, bind_apply, Act.attempt, ran]
  rfl

/-- The client that takes every solution takes the next one, and goes on. -/
theorem drive_found {w' : World Function σ} (ran : root.solve Function.call limit w = .ok true w')
    (xs : List Var) (found : Array Solution) (tally : Tally) :
    drive Function.call limit {} collector root xs (turns + 1) found tally w =
      drive Function.call limit {} collector root xs turns (found.push (Solution.capture w' xs))
        { tally with solveCalls := tally.solveCalls + 1, solutions := tally.solutions + 1 } w' := by
  have room : ({} : Settings).isReached tally = false := rfl
  rw [drive, room, if_neg Bool.false_ne_true, bind_apply, Act.attempt, ran]
  rfl

/-- What a relation enumerates, the client that takes every solution gathers. -/
theorem drive_of_enumerates (enumerates : root.Enumerates limit solutions w)
    (room : solutions.length < turns) (xs : List Var) (found : Array Solution) (tally : Tally) :
    ∃ tally' w', drive Function.call limit {} collector root xs turns found tally w =
      .ok ⟨found ++ (solutions.map (Solution.of · xs)).toArray, tally', none⟩ w' := by
  obtain ⟨turns, rfl⟩ := Nat.exists_eq_add_one_of_ne_zero (Nat.ne_zero_of_lt room)
  induction solutions generalizing w turns found tally with
  | nil =>
    obtain ⟨w', ran⟩ := enumerates
    refine ⟨{ tally with solveCalls := tally.solveCalls + 1 }, w', ?_⟩
    rw [drive_exhausted ran]
    simp
  | cons values rest ih =>
    obtain ⟨w', ran, shows, later⟩ := enumerates
    rw [List.length_cons, Nat.add_lt_add_iff_right] at room
    obtain ⟨turns, rfl⟩ := Nat.exists_eq_add_one_of_ne_zero (Nat.ne_zero_of_lt room)
    obtain ⟨tally', v, driven⟩ := ih later (found.push (Solution.of values xs)) _ turns room
    refine ⟨tally', v, ?_⟩
    rw [drive_found ran, Solution.capture_eq shows, driven]
    simp

/-- **Collecting gives a snapshot of each solution**, in their order. -/
theorem collect_of_enumerates (enumerates : root.Enumerates fuel solutions w) (idle : root.Idle w)
    (room : solutions.length < fuel) :
    ∃ w', root.collect Function.call fuel {} w =
      .ok (solutions.map (Solution.of · root.scope)) w' := by
  obtain ⟨tally, v, driven⟩ := drive_of_enumerates enumerates room root.scope #[] {}
  refine ⟨v.record fun _ => .finished tally.solutions tally.rejected tally.stoppedEarly, ?_⟩
  rw [collect, bind_apply, enumerate_of_drive rfl idle driven rfl]
  dsimp only
  rw [pure_apply]
  simp

/-- With any less fuel, the client that takes every solution is interrupted only when the fuel runs out. -/
theorem drive_interrupt {more : Nat} (le : limit ≤ more) (enumerates : root.Enumerates more solutions w)
    (found : Array Solution) (tally : Tally) :
    ∃ result w', drive Function.call limit {} collector root xs turns found tally w = .ok result w' ∧
      (result.interrupt = none ∨ result.interrupt = some .outOfFuel) := by
  induction turns generalizing solutions w found tally with
  | zero => exact ⟨_, w, rfl, .inr rfl⟩
  | succ turns ih =>
    cases solved : root.solve Function.call limit w with
    | error why v =>
      refine ⟨⟨found, { tally with solveCalls := tally.solveCalls + 1 }, some why⟩, v, ?_, .inr ?_⟩
      · have room : ({} : Settings).isReached tally = false := rfl
        rw [drive, room, if_neg Bool.false_ne_true, bind_apply, Act.attempt, solved]
        rfl
      · by_contra other
        -- The call would meet the same interrupt with more fuel, where it does answer.
        have same := solve_extends Function.call le root w fun v' h => by
          rw [solved] at h
          cases h
          exact other rfl
        cases solutions with
        | nil =>
          obtain ⟨v', ended⟩ := enumerates
          cases solved.symm.trans (same.symm.trans ended)
        | cons values rest =>
          obtain ⟨v', answered, -⟩ := enumerates
          cases solved.symm.trans (same.symm.trans answered)
    | ok answer v =>
      have same := solve_extends Function.call le root w fun v' h => by
        rw [solved] at h
        cases h
      cases answer with
      | false => exact ⟨_, v, drive_exhausted solved .., .inl rfl⟩
      | true =>
        rw [drive_found solved]
        cases solutions with
        | nil =>
          obtain ⟨v', ended⟩ := enumerates
          cases solved.symm.trans (same.symm.trans ended)
        | cons values rest =>
          obtain ⟨v', answered, -, later⟩ := enumerates
          cases solved.symm.trans (same.symm.trans answered)
          exact ih later _ _

/-- A client that collects what can be enumerated meets no other interrupt than the end of the fuel. -/
theorem collect_interrupt {enough : Nat}
    (enumerates : ∀ more, enough < more → root.Enumerates more solutions w) (idle : root.Idle w)
    {why : Interrupt} {w' : World Function σ}
    (ran : root.collect Function.call fuel {} w = .error why w') : why = .outOfFuel := by
  have later := enumerates (max fuel (enough + 1)) (by omega)
  obtain ⟨⟨gathered, tally, interrupt⟩, v, driven, ended⟩ :=
    drive_interrupt (Nat.le_max_left fuel _) later #[] {}
  rw [collect, bind_apply, enumerate, bind_apply, prepare_of_idle rfl idle] at ran
  dsimp only at ran
  rw [bind_apply, driven] at ran
  rcases ended with rfl | rfl <;> cases ran
  rfl

/-- **The first solution** is the first of them, if there is one. -/
theorem first?_of_enumerates (enumerates : root.Enumerates fuel solutions w) (idle : root.Idle w) :
    ∃ w', root.first? Function.call fuel {} w =
      .ok (solutions.map (Solution.of · root.scope)).head? w' := by
  cases solutions with
  | nil =>
    obtain ⟨v, ran⟩ := enumerates
    refine ⟨v.record fun w => .noSolution (w.image root), ?_⟩
    rw [first?, bind_apply, prepare_of_idle rfl idle]
    dsimp only
    rw [bind_apply, ran]
    rfl
  | cons values rest =>
    obtain ⟨v, ran, shows, -⟩ := enumerates
    refine ⟨v.record fun _ => .firstSolution (Solution.capture v root.scope).image, ?_⟩
    rw [first?, bind_apply, prepare_of_idle rfl idle]
    dsimp only
    rw [bind_apply, ran, List.map_cons, List.head?_cons, ← Solution.capture_eq shows]
    rfl

end Collecting
end RelationSearch
