import RelationSearch.Proofs.Listing
import RelationSearch.Proofs.Stages

/-! # Puzzles in stages

A puzzle gives each of some new variables a domain, followed by the tests that are due (`stagesOf`).  A
client who collects its solutions is given one for each combination of candidates that passes all tests,
in the order of the combinations, and each binds just the variables of the puzzle (`Assembled.gives`).
-/
namespace RelationSearch

open Act RelationSearch.Relation

variable {σ : Type} {xs : List Var} {fuel : Nat} {x : Var}
variable {candidates : Nat → List Value} {tests : Nat → List (Relation Function)}

/-! ## Stages by place -/

/-- One stage for each variable, with the candidates and the tests of its place. -/
def stagesOf (xs : List Var) (candidates : Nat → List Value) (tests : Nat → List (Relation Function)) :
    List Stage :=
  xs.zipIdx.map fun (x, place) => ⟨x, candidates place, tests place⟩

/-- The tests of a place are of variables up to it. -/
def Due (xs : List Var) (tests : Nat → List (Relation Function)) : Prop :=
  ∀ place < xs.length, ∀ r ∈ tests place, r.IsTest ∧ r.operands ⊆ xs.take (place + 1)

section Stages

variable (xs : List Var) (candidates : Nat → List Value) (tests : Nat → List (Relation Function))

theorem map_var_stagesOf : (stagesOf xs candidates tests).map Stage.var = xs := by
  rw [stagesOf, List.map_map]
  exact List.zipIdx_map_fst 0 xs

theorem map_candidates_stagesOf :
    (stagesOf xs candidates tests).map Stage.candidates = (List.range xs.length).map candidates := by
  rw [stagesOf, List.map_map, List.range_eq_range', ← List.zipIdx_map_snd 0 xs, List.map_map]
  rfl

end Stages

/-- A computation that makes the parts of each variable in turn makes the stages. -/
theorem builds_stagesOf {parts : Var → Nat → Act Function σ (List (Relation Function))}
    (each : ∀ x place, Builds (parts x place) id
      (Stage.leaves ⟨x, candidates place, tests place⟩)) (xs : List Var) :
    Builds (xs.zipIdx.mapM fun (x, place) => parts x place) List.flatten
      ((stagesOf xs candidates tests).flatMap Stage.leaves) := by
  have all : Builds (xs.zipIdx.mapM fun (x, place) => parts x place) (·.flatMap id)
      (xs.zipIdx.flatMap fun (x, place) => Stage.leaves ⟨x, candidates place, tests place⟩) :=
    .mapM fun p _ => each p.1 p.2
  rw [stagesOf, List.flatMap_map]
  simpa only [List.flatMap_id] using all

theorem mem_take_of_le {place k : Nat} (le : k ≤ place) (hx : xs[k]? = some x) :
    x ∈ xs.take (place + 1) := by
  apply List.mem_of_getElem? (i := k)
  rw [List.getElem?_take_of_lt (by omega), hx]

theorem staged_stagesOf (due : Due xs tests) : Stage.Staged [] (stagesOf xs candidates tests) := by
  have from_ (later : List Var) (k : Nat) (split : xs.drop k = later) :
      Stage.Staged (xs.take k)
        ((later.zipIdx k).map fun (x, place) => ⟨x, candidates place, tests place⟩) := by
    induction later generalizing k with
    | nil => trivial
    | cons x later ih =>
      have here : xs[k]? = some x := by
        rw [← List.head?_drop, split]
        rfl
      obtain ⟨within, rfl⟩ := List.getElem?_eq_some_iff.mp here
      have taken : xs.take k ++ [xs[k]] = xs.take (k + 1) := List.take_append_getElem within
      refine ⟨fun r hr => ?_, ?_⟩
      · rw [taken]
        exact due k within r hr
      · rw [taken]
        exact ih (k + 1) (by rw [← List.drop_drop, split]; rfl)
  exact from_ xs 0 rfl

/-- Whether the tests of all places are satisfied. -/
theorem pass_stagesOf {value : Nat → Option Value} :
    Stage.pass value (stagesOf xs candidates tests) = true ↔
      ∀ place < xs.length, ∀ r ∈ tests place, r.satisfied value = true := by
  rw [Stage.pass, stagesOf, List.all_map, List.all_eq_true]
  simp only [Function.comp_apply, List.all_eq_true]
  constructor
  · intro h place within
    exact h (xs[place], place) (List.mk_mem_zipIdx_iff_getElem?.mpr (List.getElem?_eq_getElem within))
  · rintro h ⟨x, place⟩ hx
    obtain ⟨within, -⟩ := List.getElem?_eq_some_iff.mp (List.mk_mem_zipIdx_iff_getElem?.mp hx)
    exact h place within

/-! ## What a client is given -/

/-- For each of the tuples in order, a client is given a solution that gives each of the variables the value
at its place and binds no other: all of them when it collects the solutions, and the first one when it asks
for that. -/
structure Relation.Gives (fuel : Nat) (root : Relation Function) (w : World Function σ) (xs : List Var)
    (tuples : List (List Value)) : Prop where
  collected : ∃ solutions w', root.collect Function.call fuel {} w = .ok solutions w' ∧
    List.Forall₂ (fun s t => s.Assigns xs t) solutions tuples
  first : ∃ reply w', root.first? Function.call fuel {} w = .ok reply w' ∧
    Option.Rel (fun s t => s.Assigns xs t) reply tuples.head?

/-- What a relation enumerates, with the solutions that show it. -/
theorem Relation.Gives.of_enumerates {root : Relation Function} {w : World Function σ}
    {values : List Value → Nat → Option Value} {tuples : List (List Value)}
    (enumerates : root.Enumerates fuel (tuples.map values) w) (idle : root.Idle w)
    (room : tuples.length < fuel)
    (assigns : ∀ t ∈ tuples, (Solution.of (values t) root.scope).Assigns xs t) :
    root.Gives fuel w xs tuples := by
  constructor
  · obtain ⟨w', collected⟩ := collect_of_enumerates enumerates idle (by rwa [List.length_map])
    refine ⟨_, w', collected, ?_⟩
    rw [List.map_map, List.forall₂_map_left_iff, List.forall₂_same]
    exact assigns
  · obtain ⟨w', found⟩ := first?_of_enumerates enumerates idle
    refine ⟨_, w', found, ?_⟩
    rw [List.map_map]
    cases tuples with
    | nil => exact .none
    | cons t _ => exact .some (assigns t (List.mem_cons_self ..))

theorem Relation.IsTest.isLeaf {r : Relation Function} (test : r.IsTest) : r.IsLeaf := by
  cases r with
  | compare | predicate => rfl
  | domain | convert | and | or | always | never => cases test

/-- The parts of a puzzle are leaves, and mention just its variables. -/
theorem leaves_stagesOf (candidates : Nat → List Value) (due : Due xs tests) :
    (∀ r ∈ (stagesOf xs candidates tests).flatMap Stage.leaves, r.IsLeaf) ∧
      ∀ x, x ∈ ((stagesOf xs candidates tests).flatMap Stage.leaves).flatMap operands ↔ x ∈ xs := by
  have part {r : Relation Function} (hr : r ∈ (stagesOf xs candidates tests).flatMap Stage.leaves) :
      ∃ place, ∃ within : place < xs.length,
        r = .domain 0 xs[place] (candidates place) ∨ r ∈ tests place := by
    obtain ⟨s, hs, hr⟩ := List.mem_flatMap.mp hr
    obtain ⟨⟨x, place⟩, hx, rfl⟩ := List.mem_map.mp hs
    obtain ⟨within, rfl⟩ := List.getElem?_eq_some_iff.mp (List.mk_mem_zipIdx_iff_getElem?.mp hx)
    exact ⟨place, within, List.mem_cons.mp hr⟩
  refine ⟨fun r hr => ?_, fun x => ⟨fun hx => ?_, fun hx => ?_⟩⟩
  · obtain ⟨place, within, rfl | hr⟩ := part hr
    · rfl
    · exact (due place within r hr).1.isLeaf
  · obtain ⟨r, hr, hx⟩ := List.mem_flatMap.mp hx
    obtain ⟨place, within, rfl | hr⟩ := part hr
    · rw [List.mem_singleton.mp hx]
      exact List.getElem_mem within
    · exact List.mem_of_mem_take ((due place within r hr).2 hx)
  · obtain ⟨place, within, rfl⟩ := List.mem_iff_getElem.mp hx
    refine List.mem_flatMap.mpr ⟨.domain 0 xs[place] (candidates place), ?_, List.mem_singleton_self _⟩
    have here : (⟨xs[place], candidates place, tests place⟩ : Stage) ∈ stagesOf xs candidates tests :=
      List.mem_map.mpr ⟨(xs[place], place),
        List.mk_mem_zipIdx_iff_getElem?.mpr (List.getElem?_eq_getElem within), rfl⟩
    exact List.mem_flatMap.mpr ⟨_, here, List.mem_cons_self ..⟩

/-- A puzzle answers the combinations of candidates that pass all tests. -/
theorem answers_stagesOf {env : Env Function} (candidates : Nat → List Value) (due : Due xs tests)
    (distinct : (xs.map Var.id).Nodup) (free : ∀ x ∈ xs, env.value x.id = none)
    (idle : env.pending = []) :
    (conjoined ((stagesOf xs candidates tests).flatMap Stage.leaves)).answers env =
      ⟨((choices ((List.range xs.length).map candidates)).filter fun t =>
        Stage.pass (env.assign xs t).value (stagesOf xs candidates tests)).map (env.assign xs), none⟩ := by
  have vars := map_var_stagesOf xs candidates tests
  have free' : ∀ s ∈ stagesOf xs candidates tests, env.value s.var.id = none := by
    intro s hs
    have member := List.mem_map_of_mem (f := Stage.var) hs
    rw [vars] at member
    exact free s.var member
  have distinct' : ((stagesOf xs candidates tests).map (·.var.id)).Nodup := by
    have ids := congrArg (List.map Var.id) vars
    rw [List.map_map] at ids
    exact ids ▸ distinct
  rw [answers_stages (staged_stagesOf due) nofun free' distinct' idle, vars, map_candidates_stagesOf]

/-- The variables have the values that they are assigned. -/
theorem held_of_choice (env : Env Function) (distinct : (xs.map Var.id).Nodup) {t : List Value}
    (chosen : t ∈ choices ((List.range xs.length).map candidates)) :
    List.Forall₂ (fun x v => (env.assign xs t).value x.id = some v) xs t := by
  have length : xs.length = t.length := by
    have same := (mem_choices.mp chosen).length_eq
    rw [List.length_map, List.length_range] at same
    exact same.symm
  refine List.forall₂_iff_get.mpr ⟨length, fun place here there => ?_⟩
  exact Env.value_assign distinct (List.getElem?_eq_getElem here) (List.getElem?_eq_getElem there)

section Assembled

variable {root : Relation Function} {w w' : World Function σ}
variable (due : Due xs tests) (distinct : (xs.map Var.id).Nodup) (unbound : ∀ x ∈ xs, w.value x = none)
variable (unwatched : ∀ x ∈ xs, (w.cell x).watches = [])
variable (assembled : Assembled ((stagesOf xs candidates tests).flatMap Stage.leaves) w root w')
include due assembled

theorem Assembled.mem_mentioned (x : Var) : x ∈ root.mentioned ↔ x ∈ xs := by
  obtain ⟨leaves, mentions⟩ := leaves_stagesOf candidates due
  rw [assembled.mentioned leaves]
  exact mentions x

include distinct unbound

/-- A puzzle answers the combinations of candidates that pass all tests, whatever is pending elsewhere. -/
theorem Assembled.answers_bindings : root.answers w'.bindings =
    ⟨((choices ((List.range xs.length).map candidates)).filter fun t =>
      Stage.pass (w'.bindings.assign xs t).value (stagesOf xs candidates tests)).map
        (w'.bindings.assign xs), none⟩ := by
  have free : ∀ x ∈ xs, w'.bindings.value x.id = none := fun x hx =>
    (assembled.restored.value x).trans (unbound x hx)
  rw [congrFun assembled.answers w'.bindings, answers_stagesOf candidates due distinct free rfl]

include unwatched

/-- A puzzle enumerates the combinations of candidates that pass all tests. -/
theorem Assembled.enumerates (enough : root.weight < fuel) :
    root.Enumerates fuel (((choices ((List.range xs.length).map candidates)).filter fun t =>
      Stage.pass (w'.bindings.assign xs t).value (stagesOf xs candidates tests)).map
        fun t => (w'.bindings.assign xs t).value) w' := by
  have quiet : ∀ x ∈ root.mentioned, (w'.cell x).watches = [] := by
    intro x hx
    rw [(assembled.restored x).watches]
    exact unwatched x ((assembled.mem_mentioned due x).mp hx)
  have answers := assembled.answers_bindings due distinct unbound
  have enumerates := enumerates_of_quiet assembled.alone quiet (by rw [answers]) enough
  rw [answers, List.map_map] at enumerates
  exact enumerates

/-- **The solutions of a puzzle** are the combinations of candidates that pass all tests. -/
theorem Assembled.gives (enough : root.weight < fuel) :
    root.Gives fuel w' xs ((choices ((List.range xs.length).map candidates)).filter fun t =>
      Stage.pass (w'.bindings.assign xs t).value (stagesOf xs candidates tests)) := by
  have enumerates := assembled.enumerates due distinct unbound unwatched enough
  have idle := (assembled.alone.ready root (List.mem_singleton_self root)).idle
  have few := length_answers_le root w'.bindings
  rw [assembled.answers_bindings due distinct unbound, List.length_map] at few
  refine .of_enumerates enumerates idle (Nat.lt_of_le_of_lt few enough) fun t ht => ?_
  exact Solution.assigns_of distinct (scope_perm distinct (assembled.mem_mentioned due))
    (held_of_choice _ distinct (List.mem_of_mem_filter ht))

/-- A client that collects the solutions of a puzzle is interrupted by nothing but the end of the fuel: no
test ever asks for the value of a variable that has none. -/
theorem Assembled.collect_error {why : Interrupt} {w'' : World Function σ}
    (ran : root.collect Function.call fuel {} w' = .error why w'') : why = .outOfFuel :=
  collect_interrupt (fun _ enough => assembled.enumerates due distinct unbound unwatched enough)
    (assembled.alone.ready root (List.mem_singleton_self root)).idle ran

end Assembled

/-- Where candidates are named by numbers, in increasing order, the solutions come in the lexicographic order
of their numbers, and are those that are proper in the eyes of the tests. -/
theorem Assembled.lists {root : Relation Function} {w w' : World Function σ}
    (options : Nat → List Nat) (f : Nat → Value) (proper : List Nat → Prop) (due : Due xs tests)
    (distinct : (xs.map Var.id).Nodup) (unbound : ∀ x ∈ xs, w.value x = none)
    (unwatched : ∀ x ∈ xs, (w.cell x).watches = [])
    (increasing : ∀ place < xs.length, (options place).Pairwise (· < ·))
    (judges : ∀ (t : List Nat) (value : Nat → Option Value),
      List.Forall₂ (· ∈ ·) t ((List.range xs.length).map options) →
      List.Forall₂ (fun x p => value x.id = some (f p)) xs t →
      ((∀ place < xs.length, ∀ r ∈ tests place, r.satisfied value = true) ↔ proper t))
    (assembled : Assembled ((stagesOf xs (fun place => (options place).map f) tests).flatMap
      Stage.leaves) w root w') :
    ∃ tuples : List (List Nat), tuples.Pairwise (· < ·) ∧
      (∀ t, t ∈ tuples ↔ List.Forall₂ (· ∈ ·) t ((List.range xs.length).map options) ∧ proper t) ∧
      ∀ fuel, root.weight < fuel → root.Gives fuel w' xs (tuples.map (List.map f)) := by
  let stages := stagesOf xs (fun place => (options place).map f) tests
  let all := choices ((List.range xs.length).map options)
  have candidates : choices ((List.range xs.length).map fun place => (options place).map f) =
      all.map (List.map f) := by
    rw [← choices_map, List.map_map]
    rfl
  refine ⟨all.filter fun t => Stage.pass (w'.bindings.assign xs (t.map f)).value stages, ?_,
    fun t => ?_, fun fuel enough => ?_⟩
  · refine List.Pairwise.filter _ (increasing_choices fun l hl => ?_)
    obtain ⟨place, within, rfl⟩ := List.mem_map.mp hl
    exact increasing place (List.mem_range.mp within)
  · rw [List.mem_filter, mem_choices]
    refine and_congr_right fun chosen => ?_
    have member : t.map f ∈ choices ((List.range xs.length).map fun place => (options place).map f) := by
      rw [candidates]
      exact List.mem_map_of_mem (mem_choices.mpr chosen)
    have held := held_of_choice w'.bindings distinct member
    rw [List.forall₂_map_right_iff] at held
    rw [pass_stagesOf]
    exact judges t _ chosen held
  · have gives := assembled.gives due distinct unbound unwatched enough
    rw [candidates, List.filter_map] at gives
    exact gives

end RelationSearch
