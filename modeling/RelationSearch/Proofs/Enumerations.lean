import RelationSearch.Proofs.Lockstep
import RelationSearch.Proofs.Quiet

/-! # What an enumeration depends on

An enumeration is a reset, if the settings ask for one, and then a row of calls of `solve`, between which
the client sees a solution and the variables and nodes stay as they are.  So it keeps what these calls
keep (`Relation.enumerate_keeps`), and an enumeration of a graph and one of its copy keep step
(`Twin.enumerate`).

The client of an enumeration is *quiet* if it leaves the variables and nodes alone, and *private* if it
reads and changes nothing but its own state.
-/
namespace RelationSearch

open Act RelationSearch.Relation

variable {κ σ α β : Type} {call : Caller κ σ} {limit fuel : Nat} {root : Relation κ}
variable {settings : Settings} {client : Client κ σ α}

/-! ## Clients -/

/-- The computation reads and changes nothing but the client's own state. -/
def Act.Private (act : Act κ σ α) : Prop :=
  ∃ own : σ → Except Interrupt α × σ, ∀ w, act w = match own w.client with
    | (.ok a, after) => .ok a { w with client := after }
    | (.error why, after) => .error why { w with client := after }

theorem Act.Private.pure (a : α) : Private (Pure.pure a : Act κ σ α) :=
  ⟨fun own => (.ok a, own), fun _ => rfl⟩

/-- The client leaves the variables and the nodes alone. -/
structure Client.Quiet (client : Client κ σ α) : Prop where
  accepts : ∀ solution, Keeps Untouched (client.accepts solution)
  visit : ∀ found solution, Keeps Untouched (client.visit found solution)

/-- The client has no part in the search but to see solutions. -/
structure Client.Private (client : Client κ σ α) : Prop where
  accepts : ∀ solution, Act.Private (client.accepts solution)
  visit : ∀ found solution, Act.Private (client.visit found solution)

/-- Taking every solution is no part in the search. -/
theorem Relation.collector_private : (collector : Client κ σ (Array Solution)).Private :=
  ⟨fun _ => .pure _, fun _ _ => .pure _⟩

/-! ## What enumerations keep -/

section Keeps

variable {P : World κ σ → World κ σ → Prop} (hP : Steady P)
variable (untouched : ∀ {w w'}, Untouched w w' → P w w')
include hP

omit hP in
theorem Act.Keeps.attempt {act : Act κ σ α} (h : act.Keeps P) : (Act.attempt act).Keeps P := by
  intro w
  have kept := h w
  unfold Act.final at kept ⊢
  unfold Act.attempt
  generalize act w = result at kept
  cases result <;> exact kept

theorem Relation.vars_keeps : Keeps P (root.vars : Act κ σ (List Var)) := by
  refine .get_bind hP fun w => ?_
  split
  · exact .pure hP _
  · exact .throw hP _

theorem Relation.prepare_keeps (reset : Keeps P (root.reset : Act κ σ Unit)) :
    Keeps P (root.prepare settings : Act κ σ (List Var)) := by
  have walk : Keeps P (do return (← root.vars).mergeSort fun x y => x.id ≤ y.id : Act κ σ (List Var)) :=
    .bind hP (vars_keeps hP) fun _ => .pure hP _
  unfold prepare
  split
  · exact .bind hP reset fun _ => walk
  · exact walk

include untouched

omit hP in
theorem Act.Keeps.record (event : World κ σ → Event) :
    Keeps P (Act.record event : Act κ σ Unit) :=
  fun w => untouched (.record w event)

theorem Relation.drive_keeps (solve : Keeps P (root.solve call limit)) (quiet : client.Quiet)
    (vars : List Var) (fuel : Nat) (found : α) (tally : Tally) :
    Keeps P (drive call limit settings client root vars fuel found tally) := by
  induction fuel generalizing found tally with
  | zero => exact .pure hP _
  | succ fuel ih =>
    have visited (solution : Solution) {next : α × Bool → Act κ σ (Enumeration α)}
        (goOn : ∀ found, Keeps P (next (found, true)))
        (stop : ∀ found, Keeps P (next (found, false))) :
        Keeps P (client.visit found solution >>= next) := by
      refine .bind hP (fun w => untouched (quiet.visit found solution w)) fun answer => ?_
      obtain ⟨found, _ | _⟩ := answer
      · exact stop found
      · exact goOn found
    unfold drive
    split
    · exact .pure hP _
    · refine .bind hP solve.attempt fun answer => ?_
      split
      · exact .pure hP _
      · exact .pure hP _
      · refine .get_bind hP fun w => .ite hP (fun w => untouched (quiet.accepts _ w)) ?_ (ih _ _)
        dsimp only
        split
        · refine .bind hP (.record untouched _) fun _ => visited _ (fun found => ih found _) ?_
          exact fun _ => .pure hP _
        · exact visited _ (fun found => ih found _) fun _ => .pure hP _

/-- **An enumeration keeps what its calls keep.** -/
theorem Relation.enumerate_keeps (solve : Keeps P (root.solve call fuel))
    (reset : Keeps P (root.reset : Act κ σ Unit)) (quiet : client.Quiet) (start : α) :
    Keeps P (root.enumerate call fuel settings client start) := by
  refine .bind hP (prepare_keeps hP reset) fun vars => ?_
  refine .bind hP (drive_keeps hP untouched solve quiet vars fuel start {}) fun result => ?_
  dsimp only
  split
  · exact .bind hP (.record untouched _) fun _ => .pure hP _
  · exact .pure hP _

theorem Relation.first?_keeps (solve : Keeps P (root.solve call fuel))
    (reset : Keeps P (root.reset : Act κ σ Unit)) :
    Keeps P (root.first? call fuel settings) := by
  refine .bind hP (prepare_keeps hP reset) fun vars => .ite hP solve ?_ ?_
  · refine .get_bind hP fun w => ?_
    exact .bind hP (.record untouched _) fun _ => .pure hP _
  · exact .bind hP (.record untouched _) fun _ => .pure hP _

end Keeps

/-! ## Enumerations of a copy -/

namespace Twin

variable {T : Twin σ} {busy : Nat → Bool} {client : Client Function σ α} {s : Relation Function}

/-- Private computations keep step if their clients are in the same state. -/
theorem ofPrivate {act : Act Function σ α} (h : act.Private) (same : T.client = Eq) :
    Relates Eq (T.Alike busy) act act := by
  obtain ⟨own, runs⟩ := h
  intro w v alike
  have states : v.client = w.client := by
    have := alike.client
    rw [same] at this
    exact this.symm
  have after (state : σ) :
      T.Alike busy { w with client := state } { v with client := state } :=
    ⟨alike.cell, alike.pauses, alike.busy, same ▸ rfl⟩
  rw [runs, runs, states]
  rcases own w.client with ⟨_ | _, state⟩
  · exact .error (after state)
  · exact .ok rfl (after state)

theorem Alike.capture {w v : World Function σ} (alike : T.Alike busy w v) (xs : List Var) :
    Solution.capture v xs = Solution.capture w xs := by
  unfold Solution.capture
  congr 1
  funext solution x
  rw [alike.value]

theorem Alike.addVariables {w v : World Function σ} (alike : T.Alike busy w v)
    (hs : s ∈ T.root.subs) (seen : List Var) :
    v.addVariables seen (s.renumber T.number) = w.addVariables seen s := by
  have idle {t : Relation Function} (ht : t ∈ T.root.subs) :
      v.idle (T.number t.node) = w.idle t.node := by
    obtain ⟨left, right⟩ := alike.busy _ (List.mem_map_of_mem ht)
    rw [World.idle, World.idle, left, right]
  induction s generalizing seen with
  | and n l r ihl ihr =>
    have hn : v.idle (T.number n) = w.idle n := idle hs
    simp only [renumber, World.addVariables, hn, ihl (mem_subs_of_part left_part_and hs),
      ihr (mem_subs_of_part right_part_and hs)]
  | or n l r ihl ihr =>
    have hn : v.idle (T.number n) = w.idle n := idle hs
    simp only [renumber, World.addVariables, hn, ihl (mem_subs_of_part left_part_or hs),
      ihr (mem_subs_of_part right_part_or hs)]
  | domain n | convert n | compare n | predicate n | always n | never n =>
    have hn : v.idle (T.number n) = w.idle n := idle hs
    simp only [renumber, World.addVariables, node, hn]
    rfl

theorem vars : Relates Eq (T.Alike busy) T.root.vars (T.root.renumber T.number).vars := by
  refine .get_bind fun w v alike => ?_
  dsimp only
  rw [alike.addVariables (mem_subs_self _)]
  cases w.addVariables [] T.root with
  | some found => exact .pure rfl
  | none => exact .throw _

/-- **Driving a graph and driving its copy keep step**, for private clients in the same state. -/
theorem drive (secret : client.Private) (same : T.client = Eq) (idle : ∀ m, busy m = false)
    (vars : List Var) (fuel : Nat) (found : α) (tally : Tally) :
    Relates Eq (T.Alike busy)
      (drive Function.call limit settings client T.root vars fuel found tally)
      (drive Function.call limit settings client (T.root.renumber T.number) vars fuel found
        tally) := by
  induction fuel generalizing found tally with
  | zero => exact .pure rfl
  | succ fuel ih =>
    have visited (solution : Solution) {next next' : α × Bool → Act Function σ (Enumeration α)}
        (goOn : ∀ found, Relates Eq (T.Alike busy) (next (found, true)) (next' (found, true)))
        (stop : ∀ found, Relates Eq (T.Alike busy) (next (found, false)) (next' (found, false))) :
        Relates Eq (T.Alike busy) (client.visit found solution >>= next)
          (client.visit found solution >>= next') := by
      refine (ofPrivate (secret.visit found solution) same).bind fun answer _ e => ?_
      subst e
      obtain ⟨found, _ | _⟩ := answer
      · exact stop found
      · exact goOn found
    unfold RelationSearch.Relation.drive
    split
    · exact .pure rfl
    · refine (solve (mem_subs_self _) fun m _ => idle m).attempt.bind fun answer _ e => ?_
      subst e
      rcases answer with why | _ | _
      · exact .pure rfl
      · exact .pure rfl
      · refine .get_bind fun w v alike => ?_
        rw [alike.capture]
        refine .ite (ofPrivate (secret.accepts _) same) ?_ (ih _ _)
        dsimp only
        split
        · refine (record _ _).bind fun _ _ _ => visited _ (fun found => ih found _) ?_
          exact fun _ => .pure rfl
        · exact visited _ (fun found => ih found _) fun _ => .pure rfl

variable {w v : World Function σ} (idle : ∀ m, busy m = false)

theorem prepare (asked : settings.resetBeforeSolve = true)
    (reset : Matches Eq (T.Alike busy) (T.root.reset w) ((T.root.renumber T.number).reset v)) :
    Matches Eq (T.Alike busy) (T.root.prepare settings w)
      ((T.root.renumber T.number).prepare settings v) := by
  unfold Relation.prepare
  rw [asked]
  refine reset.bind fun _ _ _ => ?_
  exact vars.bind fun found _ e => by subst e; exact .pure rfl

include idle

/-- **An enumeration of a graph and one of its copy keep step**, for private clients in the same state,
if they were reset alike. -/
theorem enumerate (asked : settings.resetBeforeSolve = true) (secret : client.Private)
    (same : T.client = Eq)
    (reset : Matches Eq (T.Alike busy) (T.root.reset w) ((T.root.renumber T.number).reset v))
    (start : α) :
    Matches Eq (T.Alike busy) (T.root.enumerate Function.call fuel settings client start w)
      ((T.root.renumber T.number).enumerate Function.call fuel settings client start v) := by
  refine (prepare asked reset).bind fun vars _ e => ?_
  subst e
  refine (drive secret same idle vars fuel start {}).bind fun result _ e => ?_
  subst e
  dsimp only
  split
  · exact (record _ _).bind fun _ _ _ => .pure rfl
  · exact .pure rfl

/-- The same of looking for one solution. -/
theorem first? (asked : settings.resetBeforeSolve = true)
    (reset : Matches Eq (T.Alike busy) (T.root.reset w) ((T.root.renumber T.number).reset v)) :
    Matches Eq (T.Alike busy) (T.root.first? Function.call fuel settings w)
      ((T.root.renumber T.number).first? Function.call fuel settings v) := by
  refine (prepare asked reset).bind fun vars _ e => ?_
  subst e
  refine Relates.ite (solve (mem_subs_self _) fun m _ => idle m) ?_ ?_
  · refine .get_bind fun w v alike => ?_
    rw [alike.capture]
    exact (record _ _).bind fun _ _ _ => .pure rfl
  · exact (record _ _).bind fun _ _ _ => .pure rfl

end Twin

end RelationSearch
